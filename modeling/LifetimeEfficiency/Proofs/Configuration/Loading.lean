import LifetimeEfficiency.Proofs.Configuration.Building
import Mathlib.Algebra.Order.Ring.Rat
/-!
# Loading in order

A document is a list of objects, efficiencies before models. Loading inserts them one after the other and stops at the first
that is refused, with all objects before it inserted and nothing of the others. The last inserted object of a name is what the
name stands for.
-/
namespace LifetimeEfficiency

variable {K : Type} [Scalar K]

inductive Registry
  | efficiency
  | resolution
  deriving DecidableEq

/-- An object of a document and where it belongs. -/
structure Entry (K : Type) where
  registry : Registry
  doc : Json K

def Entry.Names (o : Entry K) (registry : Registry) (name : String) : Prop :=
  o.registry = registry ∧ Configuration.nameOf o.doc = .ok name

namespace Configuration

def insertEntry (c : Configuration K) (o : Entry K) : Except (ConfigurationError K) (Configuration K) :=
  match o.registry with
  | .efficiency => c.insertEfficiency o.doc
  | .resolution => c.insertResolution o.doc

inductive Inserts : Configuration K → List (Entry K) → Configuration K → Prop
  | nil (c : Configuration K) : Inserts c [] c
  | cons {c mid c' : Configuration K} {o : Entry K} {os : List (Entry K)}
      (ho : c.insertEntry o = .ok mid) (hos : Inserts mid os c') : Inserts c (o :: os) c'

def entries (efficiencies resolutions : List (Json K)) : List (Entry K) :=
  efficiencies.map (fun doc => ⟨.efficiency, doc⟩) ++ resolutions.map (fun doc => ⟨.resolution, doc⟩)

omit [Scalar K] in
theorem entries_eq_append (efficiencies resolutions : List (Json K)) :
    entries efficiencies resolutions = entries efficiencies [] ++ entries [] resolutions := by
  simp [entries]

def insertEntries : Configuration K → List (Entry K) → Configuration K × Except (ConfigurationError K) Unit
  | c, [] => (c, .ok ())
  | c, o :: os =>
    match c.insertEntry o with
    | .ok c => insertEntries c os
    | .error e => (c, .error e)

variable {c c' : Configuration K} {os os' : List (Entry K)}

theorem insertEntries_append (c : Configuration K) (os os' : List (Entry K)) :
    insertEntries c (os ++ os') =
      match insertEntries c os with
      | (c', .ok ()) => insertEntries c' os'
      | failed => failed := by
  induction os generalizing c with
  | nil => rfl
  | cons o os ih =>
    rw [List.cons_append, insertEntries, insertEntries]
    cases c.insertEntry o with
    | error e => rfl
    | ok mid => exact ih mid

theorem insertEntries_map (registry : Registry) (c : Configuration K) (docs : List (Json K)) :
    insertEntries c (docs.map fun doc => ⟨registry, doc⟩) =
      insertAll (fun c doc => c.insertEntry ⟨registry, doc⟩) c docs := by
  induction docs generalizing c with
  | nil => rfl
  | cons doc docs ih =>
    rw [List.map_cons, insertEntries, insertAll]
    cases c.insertEntry ⟨registry, doc⟩ with
    | error e => rfl
    | ok mid => exact ih mid

theorem load_eq_insertEntries {doc : Json K} {efficiencies resolutions : List (Json K)}
    (h : parts doc = .ok (efficiencies, resolutions)) :
    c.load doc = insertEntries c (entries efficiencies resolutions) := by
  simp only [load, h, entries, insertEntries_append, insertEntries_map]
  rfl

theorem insertEntries_eq_ok_iff : insertEntries c os = (c', .ok ()) ↔ Inserts c os c' := by
  constructor
  · intro h
    induction os generalizing c with
    | nil =>
      cases h
      exact .nil _
    | cons o os ih =>
      rw [insertEntries] at h
      split at h
      · rename_i mid ho
        exact .cons ho (ih h)
      · cases h
  · intro h
    induction h with
    | nil c => rfl
    | cons ho hos ih =>
      rw [insertEntries, ho]
      exact ih

theorem insertEntries_eq_error_iff {e : ConfigurationError K} :
    insertEntries c os = (c', .error e) ↔
      ∃ before o after, os = before ++ o :: after ∧ Inserts c before c' ∧ c'.insertEntry o = .error e := by
  constructor
  · intro h
    -- the refused object is the first of the list or one of the rest
    induction os generalizing c with
    | nil => cases h
    | cons o os ih =>
      rw [insertEntries] at h
      split at h
      · rename_i mid ho
        obtain ⟨before, o', after, rfl, hbefore, ho'⟩ := ih h
        exact ⟨o :: before, o', after, rfl, .cons ho hbefore, ho'⟩
      · rename_i e' ho
        cases h
        exact ⟨[], o, os, rfl, .nil _, ho⟩
  · rintro ⟨before, o, after, rfl, hbefore, ho⟩
    rw [insertEntries_append, insertEntries_eq_ok_iff.mpr hbefore]
    dsimp only
    rw [insertEntries, ho]

theorem inserts_append_iff :
    Inserts c (os ++ os') c' ↔ ∃ mid, Inserts c os mid ∧ Inserts mid os' c' := by
  constructor
  · intro h
    induction os generalizing c with
    | nil => exact ⟨c, .nil c, h⟩
    | cons o os ih =>
      cases h with
      | cons ho hos =>
        obtain ⟨mid, hmid, hrest⟩ := ih hos
        exact ⟨mid, .cons ho hmid, hrest⟩
  · rintro ⟨mid, hmid, hrest⟩
    induction hmid with
    | nil c => exact hrest
    | cons ho _ ih => exact .cons ho (ih hrest)

/-- The objects of a document, in the order in which they are inserted. -/
def entriesOf (doc : Json K) : List (Entry K) :=
  match parts doc with
  | .ok (efficiencies, resolutions) => entries efficiencies resolutions
  | .error _ => []

theorem exists_inserts_load (c : Configuration K) (doc : Json K) :
    ∃ os later, entriesOf doc = os ++ later ∧ Inserts c os (c.load doc).1 := by
  rw [entriesOf]
  cases hparts : parts doc with
  | error e =>
    refine ⟨[], [], rfl, ?_⟩
    rw [load, hparts]
    exact .nil c
  | ok listed =>
    obtain ⟨efficiencies, resolutions⟩ := listed
    rw [load_eq_insertEntries hparts]
    cases hload : insertEntries c (entries efficiencies resolutions) with
    | mk c' outcome =>
      cases outcome with
      | ok u => exact ⟨_, [], (List.append_nil _).symm, insertEntries_eq_ok_iff.mp hload⟩
      | error e =>
        obtain ⟨before, o, after, hos, hbefore, -⟩ := insertEntries_eq_error_iff.mp hload
        exact ⟨before, o :: after, hos, hbefore⟩

/-- What the two registries have in common: objects of their own are put under the name that they carry, others leave them
alone. -/
structure Slot (K β : Type) [Scalar K] where
  registry : Registry
  held : Configuration K → List (String × β)
  get : Configuration K → String → Except (ConfigurationError K) β
  build : Configuration K → Json K → Inserting K β
  get_eq : ∀ c name, get c name = (Keyed.find? name (held c)).elim (.error (.nameNotFound name)) .ok
  insert_own : ∀ {c c' : Configuration K} {o : Entry K}, c.insertEntry o = .ok c' → o.registry = registry →
    ∃ name value store, nameOf o.doc = .ok name ∧ build c o.doc c.store = .ok (value, store) ∧
      held c' = Keyed.insert name value (held c)
  insert_other : ∀ {c c' : Configuration K} {o : Entry K}, c.insertEntry o = .ok c' → o.registry ≠ registry →
    held c' = held c

def efficiencySlot : Slot K (Efficiency K Parameter) where
  registry := .efficiency
  held c := c.efficiencies
  get := efficiency
  build _ := readEfficiency
  get_eq c name := by
    unfold efficiency
    cases Keyed.find? name c.efficiencies <;> rfl
  insert_own {c c' o} h hregistry := by
    obtain ⟨registry, doc⟩ := o
    cases hregistry
    obtain ⟨e, store, hname, hread, rfl⟩ := insertEfficiency_eq_ok_iff.mp h
    exact ⟨e.name, e, store, hname, hread, rfl⟩
  insert_other {c c' o} h hregistry := by
    obtain ⟨registry, doc⟩ := o
    cases registry with
    | efficiency => exact absurd rfl hregistry
    | resolution =>
      obtain ⟨m, store, -, -, rfl⟩ := insertResolution_eq_ok_iff.mp h
      rfl

def resolutionSlot : Slot K (ResolutionModel K Parameter) where
  registry := .resolution
  held c := c.resolutions
  get := resolution
  build := readResolution
  get_eq c name := by
    unfold resolution
    cases Keyed.find? name c.resolutions <;> rfl
  insert_own {c c' o} h hregistry := by
    obtain ⟨registry, doc⟩ := o
    cases hregistry
    obtain ⟨m, store, hname, hread, rfl⟩ := insertResolution_eq_ok_iff.mp h
    exact ⟨m.name, m, store, hname, hread, rfl⟩
  insert_other {c c' o} h hregistry := by
    obtain ⟨registry, doc⟩ := o
    cases registry with
    | efficiency =>
      obtain ⟨e, store, -, -, rfl⟩ := insertEfficiency_eq_ok_iff.mp h
      rfl
    | resolution => exact absurd rfl hregistry

namespace Slot

variable {β : Type} (slot : Slot K β)

/-- What a registry holds after some objects are inserted. The last of them that carries a name decides what the name stands
for; it was built in the state that the objects before it left. -/
structure Follows (c : Configuration K) (os : List (Entry K)) (c' : Configuration K) : Prop where
  latest : ∀ {name before o after}, os = before ++ o :: after → o.Names slot.registry name →
    (∀ o' ∈ after, ¬ o'.Names slot.registry name) →
    ∃ mid value store, Inserts c before mid ∧ slot.build mid o.doc mid.store = .ok (value, store) ∧
      slot.get c' name = .ok value
  untouched : ∀ {name}, (∀ o ∈ os, ¬ o.Names slot.registry name) → slot.get c' name = slot.get c name
  increasing : (Keyed.keys (slot.held c)).Pairwise (· < ·) → (Keyed.keys (slot.held c')).Pairwise (· < ·)

theorem get_of_not_names {name : String} (h : Inserts c os c')
    (hos : ∀ o ∈ os, ¬ o.Names slot.registry name) : slot.get c' name = slot.get c name := by
  rw [slot.get_eq, slot.get_eq]
  congr 1
  induction h with
  | nil c => rfl
  | @cons c mid c' o os ho _ ih =>
    rw [ih fun o' ho' => hos o' (List.mem_cons_of_mem _ ho')]
    by_cases hregistry : o.registry = slot.registry
    · obtain ⟨other, value, store, hother, -, hheld⟩ := slot.insert_own ho hregistry
      have hne : name ≠ other := by
        rintro rfl
        exact hos o List.mem_cons_self ⟨hregistry, hother⟩
      rw [hheld, Keyed.find?_insert_of_ne hne]
    · rw [slot.insert_other ho hregistry]

theorem pairwise_keys (h : Inserts c os c') (hc : (Keyed.keys (slot.held c)).Pairwise (· < ·)) :
    (Keyed.keys (slot.held c')).Pairwise (· < ·) := by
  induction h with
  | nil c => exact hc
  | @cons c mid c' o os ho _ ih =>
    apply ih
    by_cases hregistry : o.registry = slot.registry
    · obtain ⟨name, value, store, -, -, hheld⟩ := slot.insert_own ho hregistry
      rw [hheld]
      exact Keyed.pairwise_keys_insert hc name value
    · rw [slot.insert_other ho hregistry]
      exact hc

theorem follows (h : Inserts c os c') : slot.Follows c os c' := by
  refine ⟨fun {name before o after} hos hnames hafter => ?_, slot.get_of_not_names h, slot.pairwise_keys h⟩
  rw [hos] at h
  obtain ⟨mid, hbefore, hrest⟩ := inserts_append_iff.mp h
  cases hrest with
  | cons ho hlater =>
    obtain ⟨name', value, store, hname, hbuild, hheld⟩ := slot.insert_own ho hnames.1
    obtain rfl : name' = name := Except.ok.inj (hname.symm.trans hnames.2)
    -- no later object carries the name, so what this one put there is still found
    refine ⟨mid, value, store, hbefore, hbuild, ?_⟩
    rw [slot.get_of_not_names hlater hafter, slot.get_eq, hheld, Keyed.find?_insert_self]
    rfl

end Slot

theorem readResolution_congr (h : c.efficiencies = c'.efficiencies) : c.readResolution = c'.readResolution := by
  funext doc
  simp only [readResolution, efficiency, h]

theorem efficiencies_of_resolutions {resolutions : List (Json K)} (h : Inserts c (entries [] resolutions) c') :
    c'.efficiencies = c.efficiencies := by
  induction resolutions generalizing c with
  | nil =>
    cases h
    rfl
  | cons doc docs ih =>
    cases h with
    | cons ho hos =>
      rw [ih hos]
      exact efficiencySlot.insert_other ho nofun

theorem exists_base {efficiencies resolutions : List (Json K)}
    (h : Inserts c (entries efficiencies resolutions) c') :
    ∃ base, Inserts c (entries efficiencies []) base ∧ c'.readResolution = base.readResolution := by
  rw [entries_eq_append] at h
  obtain ⟨base, hbase, hrest⟩ := inserts_append_iff.mp h
  exact ⟨base, hbase, readResolution_congr (efficiencies_of_resolutions hrest)⟩

/-- Loading inserts the objects of a document in order up to the first that is refused, and nothing of the others. Whether the
two lists come in one document or in two makes no difference. -/
theorem load_inserts_in_order (c : Configuration K) (doc : Json K) :
    (∀ e, parts doc = .error e → c.load doc = (c, .error (.document e))) ∧
      ∀ efficiencies resolutions, parts doc = .ok (efficiencies, resolutions) →
        (∀ c', c.load doc = (c', .ok ()) ↔ Inserts c (entries efficiencies resolutions) c') ∧
        (∀ c' e, c.load doc = (c', .error e) ↔
          ∃ before o after, entries efficiencies resolutions = before ++ o :: after ∧
            Inserts c before c' ∧ c'.insertEntry o = .error e) ∧
        (∀ before c', Inserts c before c' →
          efficiencySlot.Follows c before c' ∧ resolutionSlot.Follows c before c') ∧
        (∀ before mid, Inserts c (entries efficiencies before) mid →
          ∃ base, Inserts c (entries efficiencies []) base ∧ mid.readResolution = base.readResolution) ∧
        ∀ first second, parts first = .ok (efficiencies, []) → parts second = .ok ([], resolutions) →
          (∀ mid, c.load first = (mid, .ok ()) → c.load doc = mid.load second) ∧
            ∀ mid e, c.load first = (mid, .error e) → c.load doc = (mid, .error e) := by
  refine ⟨fun e he => by rw [load, he], fun efficiencies resolutions hparts => ?_⟩
  refine ⟨fun c' => ?_, fun c' e => ?_, fun before c' h => ?_, fun before mid h => ?_,
    fun first second hfirst hsecond => ?_⟩
  · rw [load_eq_insertEntries hparts]
    exact insertEntries_eq_ok_iff
  · rw [load_eq_insertEntries hparts]
    exact insertEntries_eq_error_iff
  · exact ⟨efficiencySlot.follows h, resolutionSlot.follows h⟩
  · exact exists_base h
  · rw [load_eq_insertEntries hparts, load_eq_insertEntries hfirst,
      entries_eq_append efficiencies resolutions, insertEntries_append]
    refine ⟨fun mid hmid => ?_, fun mid e hmid => ?_⟩
    · rw [hmid, load_eq_insertEntries hsecond]
    · rw [hmid]

theorem load_inserts_in_order_at_unknown_efficiency :
    let half : Json ℚ := .obj [("boundaries", .arr [.num 0, .num 1]), ("coefficients", .arr [.num (1 / 2)]),
      ("efficiency_type", .str "Binned"), ("name", .str "bins")]
    let full : Json ℚ := .obj [("boundaries", .arr [.num 0, .num 1]), ("coefficients", .arr [.num 1]),
      ("efficiency_type", .str "Binned"), ("name", .str "bins")]
    let wide : Json ℚ := .obj [("efficiency", .str "bins"), ("mean", .num 0), ("name", .str "wide"),
      ("sigma", .num 2)]
    let narrow : Json ℚ := .obj [("efficiency", .str "missing"), ("mean", .num 0), ("name", .str "narrow"),
      ("sigma", .num 1)]
    let first : Json ℚ := .arr [.arr [half, full]]
    let second : Json ℚ := .obj [("resolution", .arr [wide, narrow])]
    let doc : Json ℚ := .arr [.arr [half, full], .arr [wide, narrow]]
    parts first = .ok ([half, full], []) ∧ parts second = .ok ([], [wide, narrow]) ∧
      parts doc = .ok ([half, full], [wide, narrow]) ∧
      (∃ before o after, entries [half, full] [wide, narrow] = before ++ o :: after ∧
        Inserts empty before (load empty doc).1 ∧
        (load empty doc).1.insertEntry o = .error (.nameNotFound "missing")) ∧
      load empty doc = (load empty first).1.load second := by
  intro half full wide narrow first second doc
  have hfirst : parts first = .ok ([half, full], []) := rfl
  have hsecond : parts second = .ok ([], [wide, narrow]) := by
    simp [second, parts, Field.read, Keyed.find?, Json.list]
  have hparts : parts doc = .ok ([half, full], [wide, narrow]) := rfl
  have hloaded : (load empty first).2 = .ok () := by decide +kernel
  have herror : (load empty doc).2 = .error (.nameNotFound "missing") := by decide +kernel
  obtain ⟨-, hload⟩ := load_inserts_in_order empty doc
  obtain ⟨-, hrefused, -, -, htwice⟩ := hload _ _ hparts
  obtain ⟨hjoined, -⟩ := htwice first second hfirst hsecond
  exact ⟨hfirst, hsecond, hparts, (hrefused _ _).mp (Prod.ext rfl herror), hjoined _ (Prod.ext rfl hloaded)⟩

end Configuration
end LifetimeEfficiency
