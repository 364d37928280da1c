/-!
# Keyed lists

Lists of named values in the order of their names, each name once. Text is ordered by its characters, which is also the order
of its bytes. Inserting changes what is found under one name only, and keeps the names increasing.
-/
namespace LifetimeEfficiency.Keyed

variable {α : Type}

/-- Puts a value in its place; one of the same name is replaced. -/
def insert (key : String) (value : α) : List (String × α) → List (String × α)
  | [] => [(key, value)]
  | (k, v) :: rest =>
    if key = k then (key, value) :: rest
    else if key < k then (key, value) :: (k, v) :: rest
    else (k, v) :: insert key value rest

def find? (key : String) : List (String × α) → Option α
  | [] => none
  | (k, v) :: rest => if k = key then some v else find? key rest

def keys (entries : List (String × α)) : List String := entries.map Prod.fst

/-- Of two entries with one name the later one counts. -/
def ofList (entries : List (String × α)) : List (String × α) :=
  entries.foldl (fun acc kv => insert kv.1 kv.2 acc) []

@[simp] theorem find?_insert_self (key : String) (value : α) (entries : List (String × α)) :
    find? key (insert key value entries) = some value := by
  induction entries with
  | nil => simp [insert, find?]
  | cons kv rest ih =>
    simp only [insert]
    split
    · simp [find?]
    · split
      · simp [find?]
      · rename_i hne _
        simp [find?, Ne.symm hne, ih]

theorem find?_insert_of_ne {key other : String} (h : other ≠ key) (value : α)
    (entries : List (String × α)) : find? other (insert key value entries) = find? other entries := by
  induction entries with
  | nil => simp [insert, find?, Ne.symm h]
  | cons kv rest ih =>
    simp only [insert]
    split
    · rename_i heq
      subst heq
      simp [find?, Ne.symm h]
    · split
      · simp [find?, Ne.symm h]
      · simp [find?, ih]

theorem find?_insert_cases {key other : String} {value found : α} {entries : List (String × α)}
    (h : find? other (insert key value entries) = some found) :
    other = key ∧ found = value ∨ find? other entries = some found := by
  by_cases hkey : other = key
  · subst hkey
    rw [find?_insert_self] at h
    exact .inl ⟨rfl, (Option.some.inj h).symm⟩
  · rw [find?_insert_of_ne hkey] at h
    exact .inr h

theorem mem_insert {key : String} {value : α} {entry : String × α} {entries : List (String × α)}
    (h : entry ∈ insert key value entries) : entry = (key, value) ∨ entry ∈ entries := by
  induction entries with
  | nil => simpa [insert] using h
  | cons kv rest ih =>
    simp only [insert] at h
    split at h
    · exact (List.mem_cons.1 h).imp_right (List.mem_cons_of_mem _)
    · split at h
      · exact List.mem_cons.1 h
      · rcases List.mem_cons.1 h with rfl | h
        · exact .inr List.mem_cons_self
        · exact (ih h).imp_right (List.mem_cons_of_mem _)

theorem mem_of_find? {key : String} {value : α} {entries : List (String × α)}
    (h : find? key entries = some value) : (key, value) ∈ entries := by
  induction entries with
  | nil => cases h
  | cons kv rest ih =>
    simp only [find?] at h
    split at h
    · rename_i heq
      cases h
      subst heq
      exact List.mem_cons_self
    · exact List.mem_cons_of_mem _ (ih h)

theorem mem_keys_insert {key k : String} {value : α} {entries : List (String × α)}
    (h : k ∈ keys (insert key value entries)) : k = key ∨ k ∈ keys entries := by
  induction entries with
  | nil => simpa [insert, keys] using h
  | cons kv rest ih =>
    simp only [keys] at ih
    simp only [insert] at h
    split at h
    · rename_i heq
      subst heq
      simpa [keys] using h
    · split at h
      · simpa [keys] using h
      · simp only [keys, List.map_cons, List.mem_cons] at h ⊢
        rcases h with h | h
        · exact .inr (.inl h)
        · exact (ih h).imp_right .inr

theorem pairwise_keys_insert {entries : List (String × α)} (h : (keys entries).Pairwise (· < ·))
    (key : String) (value : α) : (keys (insert key value entries)).Pairwise (· < ·) := by
  induction entries with
  | nil => simp [insert, keys]
  | cons kv rest ih =>
    obtain ⟨above, inner⟩ := List.pairwise_cons.1 h
    simp only [insert]
    split
    · rename_i heq
      subst heq
      exact h
    · rename_i hne
      split
      · rename_i hlt
        refine List.pairwise_cons.2 ⟨fun k hk => ?_, h⟩
        rcases List.mem_cons.1 hk with rfl | hk
        · exact hlt
        · exact String.lt_trans hlt (above k hk)
      · rename_i hge
        refine List.pairwise_cons.2 ⟨fun k hk => ?_, ih inner⟩
        rcases mem_keys_insert hk with rfl | hk
        · exact Std.lt_of_le_of_ne (String.not_lt.1 hge) (Ne.symm hne)
        · exact above k hk

end LifetimeEfficiency.Keyed
