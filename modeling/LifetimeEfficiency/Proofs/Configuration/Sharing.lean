import LifetimeEfficiency.Proofs.Configuration.Session
/-!
# Models keep their efficiencies

A model stands on the efficiency that its reference stood for when it was inserted, whatever the name stands for later. They hold the
same parameters, so a value set through one of them is the value of both.
-/
namespace LifetimeEfficiency

variable {K : Type} [Scalar K]

namespace Configuration

/-- Inserting the objects makes the name stand for the model. One of them is the document of the model, and refers to a name that
stands for the efficiency of the model at that moment. -/
def Binds (c : Configuration K) (os : List (Entry K)) (name : String) (m : ResolutionModel K Parameter) :
    Prop :=
  ∃ earlier o later mid next key, os = earlier ++ o :: later ∧ Inserts c earlier mid ∧
    mid.insertEntry o = .ok next ∧ o.Names .resolution name ∧ next.resolution name = .ok m ∧
    referenceOf o.doc = .ok key ∧ mid.efficiency key = .ok m.efficiency

variable {c c' : Configuration K} {o : Entry K} {os later : List (Entry K)} {name : String}
  {m : ResolutionModel K Parameter}

theorem Binds.append (h : c.Binds os name m) (later : List (Entry K)) : c.Binds (os ++ later) name m := by
  obtain ⟨earlier, o, rest, mid, next, key, rfl, h⟩ := h
  exact ⟨earlier, o, rest ++ later, mid, next, key, by simp, h⟩

theorem Binds.cons (ho : c.insertEntry o = .ok c') (h : c'.Binds os name m) : c.Binds (o :: os) name m := by
  obtain ⟨earlier, o', rest, mid, next, key, rfl, hearlier, h⟩ := h
  exact ⟨o :: earlier, o', rest, mid, next, key, rfl, .cons ho hearlier, h⟩

theorem binds_of_inserts (h : Inserts c os c') (hm : c'.resolution name = .ok m) :
    c.resolution name = .ok m ∨ c.Binds os name m := by
  induction h with
  | nil c => exact .inl hm
  | @cons c mid c' o os ho _ ih =>
    rcases ih hm with hmid | hlater
    · rcases resolution_of_insertEntry ho hmid with hold | ⟨hnames, -, key, hkey, hefficiency⟩
      · exact .inl hold
      · exact .inr ⟨[], o, os, c, mid, key, rfl, .nil c, ho, hnames, hmid, hkey, hefficiency⟩
    · exact .inr (hlater.cons ho)

theorem binds_of_load {doc : Json K} (hm : (c.load doc).1.resolution name = .ok m) :
    c.resolution name = .ok m ∨ c.Binds (entriesOf doc) name m := by
  obtain ⟨os, later, hentries, hos⟩ := c.exists_inserts_load doc
  rcases binds_of_inserts hos hm with hold | hbinds
  · exact .inl hold
  · exact .inr (hentries ▸ hbinds.append later)

end Configuration

namespace Session

theorem binds_of_act {s : Session K} {a : Action K} {name : String} {m : ResolutionModel K Parameter}
    (hm : (s.act a).config.resolution name = .ok m) :
    s.config.resolution name = .ok m ∨
      ∃ doc, a = .load doc ∧ s.config.Binds (Configuration.entriesOf doc) name m := by
  by_cases hcarries : a.Carries .resolution name
  · cases a with
    | load doc => exact (Configuration.binds_of_load hm).imp_right fun h => ⟨doc, rfl, h⟩
    | _ => cases hcarries
  · rw [(s.registries_act a name).2 hcarries] at hm
    exact .inl hm

theorem exists_binds {actions : List (Action K)} {name : String} {m : ResolutionModel K Parameter}
    (hm : (run actions).config.resolution name = .ok m) :
    ∃ before doc after, actions = before ++ .load doc :: after ∧
      (run before).config.Binds (Configuration.entriesOf doc) name m := by
  induction actions using List.reverseRecOn with
  | nil => cases hm
  | append_singleton actions a ih =>
    rw [run_append] at hm
    rcases binds_of_act hm with hold | ⟨doc, rfl, hbinds⟩
    · obtain ⟨before, doc, after, rfl, hbinds⟩ := ih hold
      exact ⟨before, doc, after ++ [a], by simp, hbinds⟩
    · exact ⟨actions, doc, [], rfl, hbinds⟩

/-- In every session a model stands on the efficiency that its reference stood for when it was inserted. What is loaded or taken out
later changes neither what it answers nor what any other object does. A value that a parameter takes reaches all objects that hold the
parameter and no others. -/
theorem models_keep_efficiencies (actions : List (Action K)) :
    let s := run actions
    (∀ name m, s.config.resolution name = .ok m →
      ∃ before doc after, actions = before ++ .load doc :: after ∧
        (run before).config.Binds (Configuration.entriesOf doc) name m) ∧
    (∀ more, let s' := run (actions ++ more)
      (∀ o, s.Has o → (∀ a ∈ more, ∀ p ∈ o.parameters, ¬ a.Moves p) →
        o.answers s'.config.store.value = o.answers s.config.store.value) ∧
      (∀ name, (∀ a ∈ more, ¬ a.Carries .efficiency name) →
        s'.config.efficiency name = s.config.efficiency name) ∧
      ∀ name, (∀ a ∈ more, ¬ a.Carries .resolution name) →
        s'.config.resolution name = s.config.resolution name) ∧
    ∀ o p v store, s.Has o → p ∈ o.parameters → s.config.store.setValue p v = .ok store →
      run (actions ++ [.change (.setValue p v)]) = { s with config := { s.config with store := store } } ∧
      store.value p = v ∧
      ∀ o', s.Has o' →
        o'.answers store.value = o'.answers (Function.update s.config.store.value p v) ∧
        (p ∉ o'.parameters → o'.answers store.value = o'.answers s.config.store.value) := by
  intro s
  have hheld : s.Held := held_run actions
  refine ⟨?_, ?_, ?_⟩
  · intro name m hm
    exact exists_binds hm
  · intro more s'
    have hs' : s' = more.foldl act s := run_append actions more
    rw [hs']
    refine ⟨?_, ?_, ?_⟩
    · intro o ho hmoves
      exact answers_foldl hheld ho hmoves
    · intro name h
      exact foldl_eq (fun s => s.config.efficiency name) (fun a ha s => (s.registries_act a name).1 (h a ha)) s
    · intro name h
      exact foldl_eq (fun s => s.config.resolution name) (fun a ha s => (s.registries_act a name).2 (h a ha)) s
  · intro o p v store ho hp hset
    have hvalue : store.value = Function.update s.config.store.value p v :=
      Store.value_of_setValue (hheld o ho p hp) hset
    refine ⟨run_setValue hset, ?_, ?_⟩
    · rw [hvalue, Function.update_self]
    · intro o' _
      rw [hvalue]
      exact ⟨rfl, fun hp' => Object.answers_update hp' v⟩

/-- The name is given to bins after the model has been built on thresholds, and a threshold is added to a copy of those. -/
theorem models_keep_efficiencies_at_redefinition :
    let thresholds : Json ℚ := .obj [("efficiency_type", .str "Threshold"), ("high", .num 3), ("low", .num 0),
      ("name", .str "shape"), ("thresholds", .arr [.arr [.num 1, .num 1]])]
    let bins : Json ℚ := .obj [("boundaries", .arr [.num 0, .num 3]), ("coefficients", .arr [.num 1]),
      ("efficiency_type", .str "Binned"), ("name", .str "shape")]
    let wide : Json ℚ := .obj [("efficiency", .str "shape"), ("mean", .num 0), ("name", .str "wide"),
      ("sigma", .num 2)]
    let first : Json ℚ := .arr [.arr [thresholds], .arr [wide]]
    let second : Json ℚ := .arr [.arr [bins]]
    let actions : List (Action ℚ) := [.load first]
    let more : List (Action ℚ) := [.take "shape", .addThreshold 0 2 ⟨0⟩, .load second]
    let s := run actions
    ∃ m store, s.config.resolution "wide" = .ok m ∧ m.efficiency.parameters = [⟨0⟩] ∧
      (∃ before doc after, actions = before ++ .load doc :: after ∧
        (run before).config.Binds (Configuration.entriesOf doc) "wide" m) ∧
      (∀ a ∈ more, ∀ p ∈ (Object.model m).parameters, ¬ a.Moves p) ∧
      (Object.model m).answers (run (actions ++ more)).config.store.value =
        (Object.model m).answers s.config.store.value ∧
      s.config.store.setValue ⟨0⟩ 0 = .ok store ∧ store.value ⟨0⟩ = 0 := by
  intro thresholds bins wide first second actions more s
  have hmodel : (s.config.resolution "wide").toOption.map (fun m => m.efficiency.parameters) = some [⟨0⟩] := by
    decide +kernel
  obtain ⟨m, hm, hparameters⟩ : ∃ m, s.config.resolution "wide" = .ok m ∧ m.efficiency.parameters = [⟨0⟩] := by
    cases h : s.config.resolution "wide" with
    | error e =>
      rw [h] at hmodel
      cases hmodel
    | ok m =>
      rw [h] at hmodel
      exact ⟨m, rfl, Option.some.inj hmodel⟩
  have htaken : (s.config.store.setValue ⟨0⟩ 0).toOption.isSome := by decide +kernel
  obtain ⟨store, hset⟩ : ∃ store, s.config.store.setValue ⟨0⟩ 0 = .ok store := by
    cases h : s.config.store.setValue ⟨0⟩ 0 with
    | error e =>
      rw [h] at htaken
      cases htaken
    | ok store => exact ⟨store, rfl⟩
  have hmoves : ∀ a ∈ more, ∀ p ∈ (Object.model m).parameters, ¬ a.Moves p := by
    intro a ha p _
    simp only [more, List.mem_cons, List.not_mem_nil, or_false] at ha
    obtain rfl | rfl | rfl := ha <;> exact id
  have hhas : s.Has (.model m) := .config (.model hm)
  have hp : ⟨0⟩ ∈ (Object.model m).parameters := by
    simp [Object.parameters, hparameters]
  obtain ⟨hbinds, hframe, hshare⟩ := models_keep_efficiencies actions
  obtain ⟨hanswers, -, -⟩ := hframe more
  obtain ⟨-, hvalue, -⟩ := hshare _ _ _ _ hhas hp hset
  exact ⟨m, store, hm, hparameters, hbinds "wide" m hm, hmoves, hanswers _ hhas hmoves, hset, hvalue⟩

end Session
end LifetimeEfficiency
