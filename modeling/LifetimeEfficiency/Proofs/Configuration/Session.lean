import LifetimeEfficiency.Proofs.Configuration.Loading
import LifetimeEfficiency.Proofs.Parameter.Change
/-!
# Sessions

A configuration in use: documents are loaded, efficiencies are taken out, thresholds are added to them and parameters change. All objects
hold cells of one store, and what an object answers depends on its own cells alone.
-/
namespace LifetimeEfficiency

variable {K : Type} [Scalar K]

inductive Object (K : Type)
  | efficiency (e : Efficiency K Parameter)
  | model (m : ResolutionModel K Parameter)

namespace Object

def parameters : Object K → List Parameter
  | efficiency e => e.parameters
  | model m => m.efficiency.parameters ++ m.coefficients

def answers (value : Parameter → K) : Object K → Profile K ⊕ Response K
  | efficiency e => .inl (e.profile value)
  | model m => .inr (m.response value)

end Object

section Congruence

variable {f g : Parameter → K}

omit [Scalar K] in
theorem Thresholds.map_congr {t : Thresholds K Parameter} (h : ∀ p ∈ t.fractions, f p = g p) :
    t.map f = t.map g := by
  rw [map, map, List.map_congr_left h]

theorem Efficiency.profile_congr {e : Efficiency K Parameter} (h : ∀ p ∈ e.parameters, f p = g p) :
    e.profile f = e.profile g := by
  obtain ⟨name, shape⟩ := e
  cases shape with
  | spline k coefs =>
    have hmap : coefs.map f = coefs.map g := List.map_congr_left h
    simp only [profile, map, hmap]
  | binned boundaries heights =>
    have hmap : heights.map f = heights.map g := List.map_congr_left h
    simp only [profile, map, hmap]
  | threshold t =>
    have hmap : t.map f = t.map g := Thresholds.map_congr h
    simp only [profile, map, hmap]

theorem Object.answers_congr {o : Object K} (h : ∀ p ∈ o.parameters, f p = g p) :
    o.answers f = o.answers g := by
  cases o with
  | efficiency e => exact congrArg Sum.inl (Efficiency.profile_congr h)
  | model m =>
    have hprofile := Efficiency.profile_congr (e := m.efficiency) fun p hp => h p (List.mem_append_left _ hp)
    have hcoefficient (p : Parameter) (hp : p ∈ m.coefficients) : f p = g p :=
      h p (List.mem_append_right _ hp)
    simp only [ResolutionModel.coefficients, List.forall_mem_cons] at hcoefficient
    obtain ⟨hmean, hsigma, hmeanScale, hsigmaScale, -⟩ := hcoefficient
    simp only [answers, ResolutionModel.response, ResolutionModel.width, ResolutionModel.offset, hprofile,
      hmean, hsigma, hmeanScale, hsigmaScale]

theorem Object.answers_update {o : Object K} {p : Parameter} (hp : p ∉ o.parameters) (v : K) :
    o.answers (Function.update f p v) = o.answers f := by
  apply answers_congr
  intro q hq
  have hne : q ≠ p := fun h => hp (h ▸ hq)
  exact Function.update_of_ne hne v f

end Congruence

namespace Configuration

/-- The objects that names stand for, and the efficiencies that models go on to use. -/
inductive Has (c : Configuration K) : Object K → Prop
  | efficiency {name : String} {e : Efficiency K Parameter} (h : c.efficiency name = .ok e) :
    Has c (.efficiency e)
  | model {name : String} {m : ResolutionModel K Parameter} (h : c.resolution name = .ok m) :
    Has c (.model m)
  | bound {name : String} {m : ResolutionModel K Parameter} (h : c.resolution name = .ok m) :
    Has c (.efficiency m.efficiency)

omit [Scalar K] in
theorem Has.of_withStore {c : Configuration K} {store : Store K} {o : Object K}
    (h : ({ c with store := store } : Configuration K).Has o) : c.Has o := by
  cases h with
  | efficiency h => exact .efficiency h
  | model h => exact .model h
  | bound h => exact .bound h

def Held (c : Configuration K) : Prop := ∀ o, c.Has o → ∀ p ∈ o.parameters, c.store.Holds p

section Inserting

variable {c c' : Configuration K} {o : Entry K} {os : List (Entry K)} {name : String}
  {e : Efficiency K Parameter} {m : ResolutionModel K Parameter}

theorem grows_insertEntry (h : c.insertEntry o = .ok c') : c.store.Grows c'.store := by
  obtain ⟨registry, doc⟩ := o
  cases registry with
  | efficiency =>
    obtain ⟨e, store, -, hread, rfl⟩ := insertEfficiency_eq_ok_iff.mp h
    exact (keeps_readEfficiency doc c.store (by simp) e store hread).1
  | resolution =>
    obtain ⟨m, store, -, hread, rfl⟩ := insertResolution_eq_ok_iff.mp h
    exact (of_readResolution hread).2.2.1

/-- An efficiency that was not there before has new cells for its parameters. -/
theorem efficiency_of_insertEntry (h : c.insertEntry o = .ok c') (he : c'.efficiency name = .ok e) :
    c.efficiency name = .ok e ∨ ∀ p ∈ e.parameters, c'.store.Holds p := by
  obtain ⟨registry, doc⟩ := o
  cases registry with
  | efficiency =>
    obtain ⟨new, store, -, hread, rfl⟩ := insertEfficiency_eq_ok_iff.mp h
    rcases Keyed.find?_insert_cases (efficiency_eq_ok_iff.mp he) with ⟨-, rfl⟩ | hold
    · exact .inr (keeps_readEfficiency doc c.store (by simp) e store hread).2
    · exact .inl (efficiency_eq_ok_iff.mpr hold)
  | resolution =>
    obtain ⟨m, store, -, -, rfl⟩ := insertResolution_eq_ok_iff.mp h
    exact .inl he

/-- A model that was not there before has the efficiency that its reference stands for now. -/
theorem resolution_of_insertEntry (h : c.insertEntry o = .ok c') (hm : c'.resolution name = .ok m) :
    c.resolution name = .ok m ∨ o.Names .resolution name ∧ (∀ p ∈ m.coefficients, c'.store.Holds p) ∧
      ∃ key, referenceOf o.doc = .ok key ∧ c.efficiency key = .ok m.efficiency := by
  obtain ⟨registry, doc⟩ := o
  cases registry with
  | efficiency =>
    obtain ⟨e, store, -, -, rfl⟩ := insertEfficiency_eq_ok_iff.mp h
    exact .inl hm
  | resolution =>
    obtain ⟨new, store, hname, hread, rfl⟩ := insertResolution_eq_ok_iff.mp h
    obtain ⟨-, ⟨key, hkey, hfound⟩, -, hholds, -⟩ := of_readResolution hread
    rcases Keyed.find?_insert_cases (resolution_eq_ok_iff.mp hm) with ⟨rfl, rfl⟩ | hold
    · exact .inr ⟨⟨rfl, hname⟩, hholds, key, hkey, efficiency_eq_ok_iff.mpr hfound⟩
    · exact .inl (resolution_eq_ok_iff.mpr hold)

omit [Scalar K] in
theorem held_of_models (he : ∀ name e, c.efficiency name = .ok e → ∀ p ∈ e.parameters, c.store.Holds p)
    (hm : ∀ name m, c.resolution name = .ok m → ∀ p ∈ (Object.model m).parameters, c.store.Holds p) :
    c.Held := by
  intro o ho p hp
  cases ho with
  | efficiency h => exact he _ _ h p hp
  | model h => exact hm _ _ h p hp
  | bound h => exact hm _ _ h p (List.mem_append_left _ hp)

theorem held_insertEntry (hc : c.Held) (h : c.insertEntry o = .ok c') : c'.Held := by
  have hgrows := grows_insertEntry h
  apply held_of_models
  · intro name e he p hp
    rcases efficiency_of_insertEntry h he with hold | hnew
    · exact hgrows.holds (hc _ (.efficiency hold) p hp)
    · exact hnew p hp
  · intro name m hm p hp
    rcases resolution_of_insertEntry h hm with hold | ⟨-, hnew, key, -, hefficiency⟩
    · exact hgrows.holds (hc _ (.model hold) p hp)
    · rcases List.mem_append.mp hp with hp | hp
      · exact hgrows.holds (hc _ (.efficiency hefficiency) p hp)
      · exact hnew p hp

theorem Inserts.held (h : Inserts c os c') (hc : c.Held) : c'.Held ∧ c.store.Grows c'.store := by
  induction h with
  | nil c => exact ⟨hc, Store.Grows.refl _⟩
  | cons ho _ ih =>
    obtain ⟨hheld, hgrows⟩ := ih (held_insertEntry hc ho)
    exact ⟨hheld, (grows_insertEntry ho).trans hgrows⟩

end Inserting

end Configuration

/-- A configuration and the efficiencies that have been taken out of it. -/
structure Session (K : Type) where
  config : Configuration K
  taken : List (Efficiency K Parameter)

namespace Session

inductive Action (K : Type)
  | load (doc : Json K)
  | take (name : String)
  | addThreshold (i : Nat) (limit : K) (fraction : Parameter)
  | change (c : Store.Change K)

def empty : Session K := ⟨Configuration.empty, []⟩

/-- A name or a limit that is refused leaves the session alone, and so does a fraction that has no cell. -/
def act (s : Session K) : Action K → Session K
  | .load doc => { s with config := (s.config.load doc).1 }
  | .take name =>
    match s.config.efficiency name with
    | .ok e => { s with taken := s.taken ++ [e] }
    | .error _ => s
  | .addThreshold i limit fraction =>
    if s.config.store.Holds fraction then
      { s with taken := s.taken.modify i fun e => e.close limit fraction }
    else s
  | .change c => { s with config := { s.config with store := s.config.store.change c } }

@[simp] theorem config_take (s : Session K) (name : String) : (s.act (.take name)).config = s.config := by
  rw [act]
  split <;> rfl

@[simp] theorem config_addThreshold (s : Session K) (i : Nat) (limit : K) (fraction : Parameter) :
    (s.act (.addThreshold i limit fraction)).config = s.config := by
  rw [act]
  split <;> rfl

def run (actions : List (Action K)) : Session K := actions.foldl act empty

def Action.Moves (p : Parameter) : Action K → Prop
  | .change c => c.Moves p
  | _ => False

def Action.Carries (registry : Registry) (name : String) : Action K → Prop
  | .load doc => ∃ o ∈ Configuration.entriesOf doc, o.Names registry name
  | _ => False

inductive Has (s : Session K) : Object K → Prop
  | config {o : Object K} (h : s.config.Has o) : Has s o
  | taken {e : Efficiency K Parameter} (h : e ∈ s.taken) : Has s (.efficiency e)

def Held (s : Session K) : Prop := ∀ o, s.Has o → ∀ p ∈ o.parameters, s.config.store.Holds p

omit [Scalar K] in
theorem held_empty : (empty : Session K).Held := by
  intro o ho
  cases ho with
  | config h =>
    cases h with
    | efficiency h => cases h
    | model h => cases h
    | bound h => cases h
  | taken h => cases h

omit [Scalar K] in
theorem held_of_taken {s : Session K} (hc : s.config.Held)
    (ht : ∀ e ∈ s.taken, ∀ p ∈ e.parameters, s.config.store.Holds p) : s.Held := by
  intro o ho p hp
  cases ho with
  | config h => exact hc o h p hp
  | taken h => exact ht _ h p hp

section Step

variable {s : Session K} {p : Parameter}

theorem keeps_act (hs : s.Held) (a : Action K) (hp : s.config.store.Holds p) :
    (s.act a).config.store.Holds p ∧
      (¬ a.Moves p → (s.act a).config.store.value p = s.config.store.value p) := by
  cases a with
  | load doc =>
    obtain ⟨os, later, -, hos⟩ := s.config.exists_inserts_load doc
    obtain ⟨-, hgrows⟩ := hos.held fun o ho => hs o (.config ho)
    exact ⟨hgrows.holds hp, fun _ => hgrows.value hp⟩
  | take name => simp [hp]
  | addThreshold i limit fraction => simp [hp]
  | change c => exact ⟨Store.holds_change c hp, Store.value_change hp⟩

theorem held_act (hs : s.Held) (a : Action K) : (s.act a).Held := by
  have hconfig : s.config.Held := fun o ho => hs o (.config ho)
  have htaken (e : Efficiency K Parameter) (he : e ∈ s.taken) (p : Parameter) (hp : p ∈ e.parameters) :
      s.config.store.Holds p := hs _ (.taken he) p hp
  cases a with
  | load doc =>
    obtain ⟨os, later, -, hos⟩ := s.config.exists_inserts_load doc
    obtain ⟨hheld, hgrows⟩ := hos.held hconfig
    exact held_of_taken hheld fun e he p hp => hgrows.holds (htaken e he p hp)
  | take name =>
    rw [act]
    split
    · rename_i e hfound
      refine held_of_taken hconfig fun e' he' p hp => ?_
      rcases List.mem_append.mp he' with hold | hnew
      · exact htaken e' hold p hp
      · obtain rfl := List.mem_singleton.mp hnew
        exact hconfig _ (.efficiency hfound) p hp
    · exact hs
  | addThreshold i limit fraction =>
    rw [act]
    split
    · rename_i hfraction
      refine held_of_taken hconfig fun e' he' p hp => ?_
      obtain ⟨j, hj, rfl⟩ := List.getElem_of_mem he'
      rw [List.getElem_modify] at hp
      split at hp
      · rcases Efficiency.parameters_close hp with hold | rfl
        · exact htaken _ (List.getElem_mem _) p hold
        · exact hfraction
      · exact htaken _ (List.getElem_mem _) p hp
    · exact hs
  | change c =>
    apply held_of_taken
    · exact fun o ho p hp => Store.holds_change c (hconfig o ho.of_withStore p hp)
    · exact fun e he p hp => Store.holds_change c (htaken e he p hp)

/-- A name stands for what it stood for, unless a document with an object of that name is loaded. -/
theorem registries_act (s : Session K) (a : Action K) (name : String) :
    (¬ a.Carries .efficiency name → (s.act a).config.efficiency name = s.config.efficiency name) ∧
      (¬ a.Carries .resolution name → (s.act a).config.resolution name = s.config.resolution name) := by
  cases a with
  | load doc =>
    obtain ⟨os, later, hentries, hos⟩ := s.config.exists_inserts_load doc
    have hmem (o : Entry K) (ho : o ∈ os) : o ∈ Configuration.entriesOf doc := by
      rw [hentries]
      exact List.mem_append_left _ ho
    constructor
    · intro h
      exact Configuration.efficiencySlot.get_of_not_names hos fun o ho hnames => h ⟨o, hmem o ho, hnames⟩
    · intro h
      exact Configuration.resolutionSlot.get_of_not_names hos fun o ho hnames => h ⟨o, hmem o ho, hnames⟩
  | take found => simp
  | addThreshold i limit fraction => simp
  | change c => exact ⟨fun _ => rfl, fun _ => rfl⟩

end Step

section Run

variable {s : Session K} {p : Parameter}

theorem held_foldl (hs : s.Held) (actions : List (Action K)) : (actions.foldl act s).Held := by
  induction actions generalizing s with
  | nil => exact hs
  | cons a actions ih => exact ih (held_act hs a)

theorem value_foldl (hs : s.Held) {actions : List (Action K)} (hp : s.config.store.Holds p)
    (hmoves : ∀ a ∈ actions, ¬ a.Moves p) :
    (actions.foldl act s).config.store.value p = s.config.store.value p := by
  induction actions generalizing s with
  | nil => rfl
  | cons a actions ih =>
    obtain ⟨hholds, hvalue⟩ := keeps_act hs a hp
    rw [List.foldl_cons, ih (held_act hs a) hholds fun b hb => hmoves b (List.mem_cons_of_mem _ hb)]
    exact hvalue (hmoves a List.mem_cons_self)

theorem foldl_eq {β : Type} (f : Session K → β) {actions : List (Action K)}
    (h : ∀ a ∈ actions, ∀ s, f (act s a) = f s) (s : Session K) : f (actions.foldl act s) = f s := by
  induction actions generalizing s with
  | nil => rfl
  | cons a actions ih =>
    rw [List.foldl_cons, ih fun b hb => h b (List.mem_cons_of_mem _ hb)]
    exact h a List.mem_cons_self s

/-- An object answers the same as long as no parameter of its own moves, whatever happens to others. -/
theorem answers_foldl (hs : s.Held) {o : Object K} (ho : s.Has o) {actions : List (Action K)}
    (hmoves : ∀ a ∈ actions, ∀ p ∈ o.parameters, ¬ a.Moves p) :
    o.answers (actions.foldl act s).config.store.value = o.answers s.config.store.value := by
  apply Object.answers_congr
  intro p hp
  exact value_foldl hs (hs o ho p hp) fun a ha => hmoves a ha p hp

theorem held_run (actions : List (Action K)) : (run actions).Held := held_foldl held_empty actions

theorem run_append (actions more : List (Action K)) : run (actions ++ more) = more.foldl act (run actions) :=
  List.foldl_append

theorem run_setValue {actions : List (Action K)} {v : K} {store : Store K}
    (h : (run actions).config.store.setValue p v = .ok store) :
    run (actions ++ [.change (.setValue p v)]) =
      { run actions with config := { (run actions).config with store := store } } := by
  rw [run_append, List.foldl_cons, List.foldl_nil, act, Store.change, h]

end Run

end Session

end LifetimeEfficiency
