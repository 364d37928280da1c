import LifetimeEfficiency.Numeric.Double
import LifetimeEfficiency.Parameter.Handles
import LifetimeEfficiency.Proofs.Parameter.Change
import Mathlib.Data.List.Induction
import Mathlib.Logic.Relation
/-!
# Aliasing

Handles share a cell if copying connects them and only then. A request that succeeds reaches the cell of its handle and no other, and a
refused one reaches none.
-/
namespace LifetimeEfficiency.Handles

variable {K : Type} {h h' h'' : Handles K} {i j : Nat} {p q : Parameter} {state : ParameterState K} {v : K}

theorem parameter?_hold_iff :
    (h.hold p).parameter? i = some q ↔ h.parameter? i = some q ∨ i = h.held.length ∧ p = q := by
  simp only [parameter?, hold, List.getElem?_append]
  split
  · rename_i hlt
    simp [Nat.ne_of_lt hlt]
  · rename_i hge
    have hle : h.held.length ≤ i := Nat.not_lt.mp hge
    rw [List.getElem?_eq_none hle]
    simp only [List.getElem?_singleton]
    grind

theorem lt_of_parameter? (hp : h.parameter? i = some p) : i < h.held.length :=
  (List.getElem?_eq_some_iff.mp hp).1

theorem exists_parameter? (hi : i < h.held.length) : ∃ p, h.parameter? i = some p :=
  ⟨h.held[i], List.getElem?_eq_getElem hi⟩

theorem state?_eq_some_iff :
    h.state? i = some state ↔ ∃ p, h.parameter? i = some p ∧ h.store.state? p = some state :=
  Option.bind_eq_some_iff

theorem shares?_eq_true_iff :
    h.shares? i j = some true ↔ ∃ p, h.parameter? i = some p ∧ h.parameter? j = some p := by
  simp only [shares?, Option.bind_eq_bind, Option.bind_eq_some_iff, Option.pure_def, Option.some_inj,
    beq_iff_eq]
  constructor
  · rintro ⟨p, hi, q, hj, rfl⟩
    exact ⟨p, hi, hj⟩
  · rintro ⟨p, hi, hj⟩
    exact ⟨p, hi, p, hj, rfl⟩

theorem setConstant?_eq (hp : h.parameter? i = some p) (hstate : h.store.state? p = some state)
    (constant : Bool) : h.setConstant? i constant =
      some { h with store := h.store.replace p (state.setConstant constant) } := by
  rw [setConstant?, hp, Option.map_some, Store.setConstant_of_state? hstate]

/-- What is written through one handle is read through those that share its cell, and through no others. -/
theorem state?_replace (hp : h.parameter? i = some p) (hstate : h.store.state? p = some state)
    (f : ParameterState K → ParameterState K) (j : Nat) :
    ({ h with store := h.store.replace p (f state) } : Handles K).state? j =
      if h.shares? i j = some true then (h.state? j).map f else h.state? j := by
  have hlt : p.cell < h.store.cells.length := (List.getElem?_eq_some_iff.mp hstate).1
  split
  · rename_i hshares
    obtain ⟨q, hq, hj⟩ := shares?_eq_true_iff.mp hshares
    obtain rfl : p = q := Option.some.inj (hp.symm.trans hq)
    have hread : h.state? j = some state := state?_eq_some_iff.mpr ⟨p, hj, hstate⟩
    rw [hread, Option.map_some]
    exact state?_eq_some_iff.mpr ⟨p, hj, Store.state?_replace_self hlt (f state)⟩
  · rename_i hshares
    cases hj : h.parameter? j with
    | none => simp [state?, parameter?, show h.held[j]? = none from hj]
    | some q =>
      have hne : p ≠ q := fun hpq => hshares (shares?_eq_true_iff.mpr ⟨p, hp, hpq ▸ hj⟩)
      have hread := Store.state?_replace_of_ne hne h.store (f state)
      simp [state?, parameter?, show h.held[j]? = some q from hj, hread]

/-- Handles keep their cells, and cells the name and the range of their state. -/
structure Extends (h h' : Handles K) : Prop where
  parameter : ∀ {i p}, h.parameter? i = some p → h'.parameter? i = some p
  state : ∀ {p state}, h.store.state? p = some state →
    ∃ state', h'.store.state? p = some state' ∧ state'.name = state.name ∧ state'.range = state.range

theorem Extends.refl (h : Handles K) : h.Extends h := ⟨id, fun hstate => ⟨_, hstate, rfl, rfl⟩⟩

theorem Extends.trans (hfirst : h.Extends h') (hsecond : h'.Extends h'') : h.Extends h'' where
  parameter hp := hsecond.parameter (hfirst.parameter hp)
  state hstate := by
    obtain ⟨state', hstate', hname', hrange'⟩ := hfirst.state hstate
    obtain ⟨state'', hstate'', hname'', hrange''⟩ := hsecond.state hstate'
    exact ⟨state'', hstate'', hname''.trans hname', hrange''.trans hrange'⟩

theorem state?_of_extends (hextends : h.Extends h') (hstate : h.state? i = some state) :
    ∃ state', h'.state? i = some state' ∧ state'.name = state.name ∧ state'.range = state.range := by
  obtain ⟨p, hp, hstate⟩ := state?_eq_some_iff.mp hstate
  obtain ⟨state', hstate', hname, hrange⟩ := hextends.state hstate
  exact ⟨state', state?_eq_some_iff.mpr ⟨p, hextends.parameter hp, hstate'⟩, hname, hrange⟩

variable [Scalar K]

inductive Request (K : Type)
  | constantly (name : String) (value : K)
  | floating (name : String) (value min max : K)
  | copy (i : Nat)
  | setValue (i : Nat) (value : K)
  | setConstant (i : Nat) (constant : Bool)

def answer? (h : Handles K) : Request K → Option (Except (ParameterError K) (Handles K))
  | .constantly name value => some (.ok (h.constantly name value))
  | .floating name value min max => some (h.floating name value min max)
  | .copy i => (h.copy? i).map .ok
  | .setValue i value => h.setValue? i value
  | .setConstant i constant => (h.setConstant? i constant).map .ok

def act (h : Handles K) (r : Request K) : Handles K :=
  match h.answer? r with
  | some (.ok h') => h'
  | some (.error _) => h
  | none => h

def run (rs : List (Request K)) : Handles K := rs.foldl act empty

/-- Handle `j` was made by copying handle `i`. -/
def Copied (rs : List (Request K)) (i j : Nat) : Prop :=
  ∃ before after, rs = before ++ .copy i :: after ∧ i < (run before).held.length ∧
    j = (run before).held.length

/-- The effect of a request on the handles. -/
inductive Step (h : Handles K) : Request K → Handles K → Prop
  | refuse {r : Request K} : Step h r h
  | create {r : Request K} {state : ParameterState K} (hstate : state.Fits) : Step h r (h.add state)
  | copy {i : Nat} {p : Parameter} (hp : h.parameter? i = some p) : Step h (.copy i) (h.hold p)
  | replace {r : Request K} {p : Parameter} {state state' : ParameterState K}
    (hstate : h.store.state? p = some state) (hname : state'.name = state.name)
    (hrange : state'.range = state.range) (hfits : state.Fits → state'.Fits) :
    Step h r { h with store := h.store.replace p state' }

variable {r : Request K} {rs : List (Request K)}

theorem setValue?_eq_ok_iff (hp : h.parameter? i = some p) (hstate : h.store.state? p = some state) :
    h.setValue? i v = some (.ok h') ↔ state.constant = false ∧ ParameterState.InRange state.range v ∧
      h' = { h with store := h.store.replace p { state with value := v } } := by
  rw [setValue?, hp, Option.map_some, Option.some_inj, bind_eq_ok_iff]
  constructor
  · rintro ⟨store, hset, hh'⟩
    cases hh'
    obtain ⟨hconstant, hin, rfl⟩ := (Store.setValue_of_state? hstate).mp hset
    exact ⟨hconstant, hin, rfl⟩
  · rintro ⟨hconstant, hin, rfl⟩
    exact ⟨_, (Store.setValue_of_state? hstate).mpr ⟨hconstant, hin, rfl⟩, rfl⟩

theorem step_act (h : Handles K) (r : Request K) : Step h r (h.act r) := by
  cases r with
  | constantly name value => exact .create ParameterState.fits_constantly
  | floating name value min max =>
    cases hnew : ParameterState.floating name value min max with
    | error e =>
      rw [act, answer?, floating, hnew]
      exact .refuse
    | ok state =>
      rw [act, answer?, floating, hnew]
      exact .create (ParameterState.fits_of_floating hnew)
  | copy i =>
    cases hp : h.parameter? i with
    | none =>
      rw [act, answer?, copy?, hp]
      exact .refuse
    | some p =>
      rw [act, answer?, copy?, hp]
      exact .copy hp
  | setValue i v =>
    cases hp : h.parameter? i with
    | none =>
      rw [act, answer?, setValue?, hp]
      exact .refuse
    | some p =>
      cases hstate : h.store.state? p with
      | none =>
        rw [act, answer?, setValue?, hp, Option.map_some, Store.setValue_of_none hstate]
        exact .refuse
      | some state =>
        rw [act, answer?]
        split
        · rename_i h' hset
          obtain ⟨hconstant, hin, rfl⟩ := (setValue?_eq_ok_iff hp hstate).mp hset
          have hvalue : state.setValue v = .ok { state with value := v } :=
            ParameterState.setValue_eq_ok_iff.mpr ⟨hconstant, hin, rfl⟩
          exact .replace hstate rfl rfl fun hfits => hfits.setValue hvalue
        · exact .refuse
        · exact .refuse
  | setConstant i constant =>
    cases hp : h.parameter? i with
    | none =>
      rw [act, answer?, setConstant?, hp]
      exact .refuse
    | some p =>
      cases hstate : h.store.state? p with
      | none =>
        rw [act, answer?, setConstant?, hp, Option.map_some, Store.setConstant_of_none hstate]
        exact .refuse
      | some state =>
        rw [act, answer?, setConstant?_eq hp hstate]
        exact .replace hstate rfl rfl fun hfits => hfits.setConstant constant

/-- Handles hold cells that there are, and every state is within its range. -/
structure Sound (h : Handles K) : Prop where
  holds : ∀ p ∈ h.held, h.store.Holds p
  fits : ∀ state ∈ h.store.cells, state.Fits

theorem sound_empty : (empty : Handles K).Sound := ⟨nofun, nofun⟩

theorem Step.sound (hstep : Step h r h') (hh : h.Sound) : h'.Sound := by
  cases hstep with
  | refuse => exact hh
  | @create r state hfits =>
    constructor
    · intro p hp
      rcases List.mem_append.mp hp with hp | hp
      · have hlt : p.cell < h.store.cells.length := hh.holds p hp
        have hlength : (h.add state).store.cells.length = h.store.cells.length + 1 := List.length_append
        rw [Store.Holds, hlength]
        omega
      · obtain rfl := List.mem_singleton.mp hp
        exact Store.holds_add h.store state
    · intro state' hstate'
      rcases List.mem_append.mp hstate' with hstate' | hstate'
      · exact hh.fits state' hstate'
      · obtain rfl := List.mem_singleton.mp hstate'
        exact hfits
  | copy hp =>
    refine ⟨?_, hh.fits⟩
    intro q hq
    rcases List.mem_append.mp hq with hq | hq
    · exact hh.holds q hq
    · obtain rfl := List.mem_singleton.mp hq
      exact hh.holds q (List.mem_of_getElem? hp)
  | @replace r p state new hstate hname hrange hfits =>
    constructor
    · intro q hq
      exact Store.holds_replace new (hh.holds q hq)
    · intro state' hstate'
      rcases List.mem_or_eq_of_mem_set hstate' with hstate' | rfl
      · exact hh.fits state' hstate'
      · exact hfits (hh.fits state (List.mem_of_getElem? hstate))

theorem Step.extends (hstep : Step h r h') : h.Extends h' := by
  cases hstep with
  | refuse => exact .refl h
  | @create r new hfits =>
    refine ⟨fun hp => parameter?_hold_iff.mpr (.inl hp), fun {p state} hstate => ?_⟩
    have hp : p.cell < h.store.cells.length := (List.getElem?_eq_some_iff.mp hstate).1
    exact ⟨state, (Store.state?_add_of_lt hp new).trans hstate, rfl, rfl⟩
  | copy hp =>
    exact ⟨fun hq => parameter?_hold_iff.mpr (.inl hq), fun hstate => ⟨_, hstate, rfl, rfl⟩⟩
  | @replace r p old new hold hname hrange hfits =>
    refine ⟨id, fun {q state} hstate => ?_⟩
    by_cases hpq : p = q
    · subst hpq
      obtain rfl : old = state := Option.some.inj (hold.symm.trans hstate)
      have hp : p.cell < h.store.cells.length := (List.getElem?_eq_some_iff.mp hold).1
      exact ⟨new, Store.state?_replace_self hp new, hname, hrange⟩
    · exact ⟨state, (Store.state?_replace_of_ne hpq _ new).trans hstate, rfl, rfl⟩

section Run

variable {more : List (Request K)}

theorem run_append (rs more : List (Request K)) : run (rs ++ more) = more.foldl act (run rs) :=
  List.foldl_append

theorem run_concat (rs : List (Request K)) (r : Request K) : run (rs ++ [r]) = (run rs).act r :=
  run_append rs [r]

theorem sound_run (rs : List (Request K)) : (run rs).Sound := by
  induction rs using List.reverseRecOn with
  | nil => exact sound_empty
  | append_singleton rs r ih =>
    rw [run_concat]
    exact (step_act (run rs) r).sound ih

theorem extends_run (rs more : List (Request K)) : (run rs).Extends (run (rs ++ more)) := by
  induction more using List.reverseRecOn with
  | nil =>
    rw [List.append_nil]
    exact .refl _
  | append_singleton more r ih =>
    rw [← List.append_assoc, run_concat]
    exact ih.trans (step_act (run (rs ++ more)) r).extends

theorem exists_state? (hp : (run rs).parameter? i = some p) :
    ∃ state, (run rs).store.state? p = some state :=
  ⟨_, List.getElem?_eq_getElem ((sound_run rs).holds p (List.mem_of_getElem? hp))⟩

theorem parameter?_of_copied (h : Copied rs i j) : (run rs).parameter? i = (run rs).parameter? j := by
  obtain ⟨before, after, rfl, hi, rfl⟩ := h
  obtain ⟨p, hp⟩ := exists_parameter? hi
  have hcopy : run (before ++ [.copy i]) = (run before).hold p := by
    rw [run_concat, act, answer?, copy?, hp]
    rfl
  have hextends := extends_run (before ++ [.copy i]) after
  rw [List.append_assoc, List.singleton_append, hcopy] at hextends
  rw [hextends.parameter (parameter?_hold_iff.mpr (.inl hp)),
    hextends.parameter (parameter?_hold_iff.mpr (.inr ⟨rfl, rfl⟩))]

theorem Copied.append (h : Copied rs i j) (more : List (Request K)) : Copied (rs ++ more) i j := by
  obtain ⟨before, after, rfl, hi, hj⟩ := h
  exact ⟨before, after ++ more, by simp, hi, hj⟩

theorem parameter?_of_connected (h : Relation.EqvGen (Copied rs) i j) :
    (run rs).parameter? i = (run rs).parameter? j := by
  induction h with
  | rel i j h => exact parameter?_of_copied h
  | refl i => rfl
  | symm i j _ ih => exact ih.symm
  | trans i j k _ _ ih ih' => exact ih.trans ih'

/-- Two handles of one cell come from one handle by copying. -/
theorem connected_of_parameter? (hi : (run rs).parameter? i = some p)
    (hj : (run rs).parameter? j = some p) : Relation.EqvGen (Copied rs) i j := by
  induction rs using List.reverseRecOn generalizing i j p with
  | nil => cases hi
  | append_singleton rs r ih =>
    have hmono {i j p} (hi : (run rs).parameter? i = some p) (hj : (run rs).parameter? j = some p) :
        Relation.EqvGen (Copied (rs ++ [r])) i j :=
      (ih hi hj).mono fun _ _ h => h.append [r]
    have hstep := step_act (run rs) r
    rw [run_concat] at hi hj
    generalize hh' : (run rs).act r = h' at hstep hi hj
    cases hstep with
    | refuse => exact hmono hi hj
    | replace => exact hmono hi hj
    | @create r state hfits =>
      have hnew {k} (hk : (run rs).parameter? k = some ⟨(run rs).store.cells.length⟩) : False :=
        Nat.lt_irrefl _ ((sound_run rs).holds _ (List.mem_of_getElem? hk))
      rcases parameter?_hold_iff.mp hi with hi | ⟨rfl, rfl⟩
      · rcases parameter?_hold_iff.mp hj with hj | ⟨-, rfl⟩
        · exact hmono hi hj
        · exact (hnew hi).elim
      · rcases parameter?_hold_iff.mp hj with hj | ⟨rfl, -⟩
        · exact (hnew hj).elim
        · exact .refl _
    | @copy k q hq =>
      have hk : k < (run rs).held.length := lt_of_parameter? hq
      have hcopied : Relation.EqvGen (Copied (rs ++ [.copy k])) k (run rs).held.length :=
        .rel _ _ ⟨rs, [], rfl, hk, rfl⟩
      rcases parameter?_hold_iff.mp hi with hi | ⟨rfl, rfl⟩
      · rcases parameter?_hold_iff.mp hj with hj | ⟨rfl, rfl⟩
        · exact hmono hi hj
        · exact .trans _ _ _ (hmono hi hq) hcopied
      · rcases parameter?_hold_iff.mp hj with hj | ⟨rfl, -⟩
        · exact .trans _ _ _ (.symm _ _ hcopied) (hmono hq hj)
        · exact .refl _

theorem shares?_iff_connected (hi : i < (run rs).held.length) :
    (run rs).shares? i j = some true ↔ Relation.EqvGen (Copied rs) i j := by
  rw [shares?_eq_true_iff]
  constructor
  · rintro ⟨p, hi, hj⟩
    exact connected_of_parameter? hi hj
  · intro h
    obtain ⟨p, hp⟩ := exists_parameter? hi
    exact ⟨p, hp, parameter?_of_connected h ▸ hp⟩

theorem exists_state?_of_shares (hshares : (run rs).shares? i j = some true) :
    ∃ state, (run rs).state? i = some state ∧ (run rs).state? j = some state := by
  obtain ⟨p, hi, hj⟩ := shares?_eq_true_iff.mp hshares
  obtain ⟨state, hstate⟩ := exists_state? hi
  exact ⟨state, state?_eq_some_iff.mpr ⟨p, hi, hstate⟩, state?_eq_some_iff.mpr ⟨p, hj, hstate⟩⟩

theorem fits_of_state? (hstate : (run rs).state? i = some state) : state.Fits := by
  obtain ⟨p, -, hstate⟩ := state?_eq_some_iff.mp hstate
  exact (sound_run rs).fits state (List.mem_of_getElem? hstate)

theorem state?_of_floating {name : String} {value lo hi : K} (h' : h.floating name value lo hi = .ok h'') :
    h''.state? h.held.length = some ⟨name, value, some (lo, hi), false⟩ := by
  obtain ⟨state, hfloating, hadd⟩ := bind_eq_ok_iff.mp h'
  cases hadd
  obtain ⟨-, -, -, rfl⟩ := ParameterState.floating_eq_ok_iff.mp hfloating
  exact state?_eq_some_iff.mpr
    ⟨_, parameter?_hold_iff.mpr (.inr ⟨rfl, rfl⟩), Store.state?_add_self h.store _⟩

/-- The range that a handle is made with holds its value from then on. -/
theorem state?_of_born {before : List (Request K)} {name : String} {value lo hi : K}
    (hborn : (run before).floating name value lo hi = .ok h') (after : List (Request K)) :
    ∃ state, (run (before ++ .floating name value lo hi :: after)).state? (run before).held.length =
        some state ∧ state.name = name ∧ state.range = some (lo, hi) := by
  have hrun : run (before ++ [.floating name value lo hi]) = h' := by
    rw [run_concat, act, answer?, hborn]
  have hextends := extends_run (before ++ [.floating name value lo hi]) after
  rw [List.append_assoc, List.singleton_append, hrun] at hextends
  exact state?_of_extends hextends (state?_of_floating hborn)

end Run

/-- In every run handles share their state exactly if copying connects them, and then they read the same. What succeeds through a handle
reaches those that share its state and no others; what is refused reaches none. Names and ranges stay, a value that was once within a
range never leaves it, and a value is taken exactly if it is in the range of a state that is not constant. -/
theorem sharing_consistent (rs : List (Request K)) :
    let h := run rs
    (∀ i j, i < h.held.length → j < h.held.length →
      (h.shares? i j = some true ↔ Relation.EqvGen (Copied rs) i j)) ∧
    (∀ i j, h.shares? i j = some true → ∃ state, h.state? i = some state ∧ h.state? j = some state) ∧
    (∀ i v h', h.setValue? i v = some (.ok h') → h'.held = h.held ∧ ∀ j, h'.state? j =
      if h.shares? i j = some true then (h.state? j).map fun state => { state with value := v }
      else h.state? j) ∧
    (∀ i c h', h.setConstant? i c = some h' → h'.held = h.held ∧ ∀ j, h'.state? j =
      if h.shares? i j = some true then (h.state? j).map fun state => { state with constant := c }
      else h.state? j) ∧
    (∀ r e, h.answer? r = some (.error e) → run (rs ++ [r]) = h) ∧
    (∀ more i state, h.state? i = some state → ∃ state', (run (rs ++ more)).state? i = some state' ∧
      state'.name = state.name ∧ state'.range = state.range) ∧
    (∀ before after name value lo hi new, rs = before ++ .floating name value lo hi :: after →
      (run before).floating name value lo hi = .ok new →
      ∀ i, h.shares? (run before).held.length i = some true → ∃ state, h.state? i = some state ∧
        state.name = name ∧ state.range = some (lo, hi) ∧ lo < hi ∧ lo ≤ state.value ∧ state.value ≤ hi) ∧
    ∀ i state v, h.state? i = some state →
      ((∃ h', h.setValue? i v = some (.ok h')) ↔
        state.constant = false ∧ ParameterState.InRange state.range v) ∧
      ∀ lo hi, ParameterState.Ends state.range lo hi →
        (ParameterState.InRange state.range v ↔ lo ≤ v ∧ v ≤ hi) := by
  intro h
  refine ⟨?_, ?_, ?_, ?_, ?_, ?_, ?_, ?_⟩
  · intro i j hi _
    exact shares?_iff_connected hi
  · intro i j hshares
    exact exists_state?_of_shares hshares
  · intro i v h' hset
    obtain ⟨p, hp, -⟩ := Option.map_eq_some_iff.mp hset
    obtain ⟨state, hstate⟩ := exists_state? hp
    obtain ⟨-, -, rfl⟩ := (setValue?_eq_ok_iff hp hstate).mp hset
    exact ⟨rfl, state?_replace hp hstate fun state => { state with value := v }⟩
  · intro i c h' hset
    obtain ⟨p, hp, -⟩ := Option.map_eq_some_iff.mp hset
    obtain ⟨state, hstate⟩ := exists_state? hp
    rw [setConstant?_eq hp hstate] at hset
    cases hset
    exact ⟨rfl, state?_replace hp hstate fun state => state.setConstant c⟩
  · intro r e hr
    rw [run_concat, act, hr]
  · intro more i state hstate
    exact state?_of_extends (extends_run rs more) hstate
  · rintro before after name value lo hi new rfl hborn i hshares
    obtain ⟨state, hstate, hname, hrange⟩ := state?_of_born hborn after
    obtain ⟨state', hstate', hread⟩ := exists_state?_of_shares hshares
    obtain rfl := Option.some.inj (hstate.symm.trans hstate')
    exact ⟨state, hread, hname, hrange, fits_of_state? hread lo hi hrange⟩
  · intro i state v hstate
    obtain ⟨p, hp, hstate⟩ := state?_eq_some_iff.mp hstate
    refine ⟨?_, fun lo hi => ParameterState.inRange_iff_of_ends⟩
    constructor
    · rintro ⟨h', hset⟩
      obtain ⟨hconstant, hin, -⟩ := (setValue?_eq_ok_iff hp hstate).mp hset
      exact ⟨hconstant, hin⟩
    · rintro ⟨hconstant, hin⟩
      exact ⟨_, (setValue?_eq_ok_iff hp hstate).mpr ⟨hconstant, hin, rfl⟩⟩

/-- An undefined end is refused and an infinite value is held, until its constant is let go. -/
theorem sharing_consistent_at_infinite_value :
    let nan := Double.nan
    let after : List (Request Float) := [.copy 0, .constantly "c" (1 / 0), .setValue 1 0.75,
      .floating "none" 1 nan 2, .copy 2, .setConstant 3 false, .setValue 3 nan]
    let rs : List (Request Float) := .floating "eps" 0.5 0 1 :: after
    let h := run rs
    h.held.length = 4 ∧ h.shares? 2 3 = some true ∧ Relation.EqvGen (Copied rs) 2 3 ∧
      ¬ Relation.EqvGen (Copied rs) 1 2 ∧
      (∃ state, h.state? 1 = some state ∧ state.name = "eps" ∧ state.range = some (0, 1) ∧
        (0 : Float) < 1 ∧ 0 ≤ state.value ∧ state.value ≤ 1) ∧
      (∃ h', h.setValue? 2 (-1 / 0) = some (.ok h') ∧
        h'.state? 3 = (h.state? 3).map fun state => { state with value := -1 / 0 }) ∧
      ∃ e, h.answer? (.setValue 2 nan) = some (.error e) ∧ run (rs ++ [.setValue 2 nan]) = h := by
  intro nan after rs h
  obtain ⟨hshares, -, hset, -, herror, -, hborn, htakes⟩ := sharing_consistent rs
  have hlength : h.held.length = 4 := by decide
  have hshared : h.shares? 2 3 = some true := by decide
  have hapart : h.shares? 1 2 ≠ some true := by decide
  have hconnected := (hshares 2 3 (by decide) (by decide)).mp hshared
  have hunconnected := mt (hshares 1 2 (by decide) (by decide)).mpr hapart
  have hfloating : ∃ new, (run []).floating "eps" (0.5 : Float) 0 1 = .ok new := ⟨_, rfl⟩
  obtain ⟨new, hfloating⟩ := hfloating
  have heps := hborn [] after _ _ _ _ new rfl hfloating 1 (by decide)
  have hfree : (h.state? 2).map (fun state => (state.constant, state.range)) = some (false, none) := by
    decide
  obtain ⟨state, hstate, hfree⟩ := Option.map_eq_some_iff.mp hfree
  obtain ⟨hconstant, hrange⟩ := Prod.mk.inj hfree
  have hin : ParameterState.InRange state.range (-1 / 0) := by
    rw [hrange]
    exact (by decide : (-1 / 0 : Float) ≤ -1 / 0)
  obtain ⟨h', hset'⟩ := (htakes 2 state _ hstate).1.mpr ⟨hconstant, hin⟩
  have hread := (hset 2 _ h' hset').2 3
  rw [if_pos hshared] at hread
  have hrefused : (h.answer? (.setValue 2 nan)).map (·.toOption.isNone) = some true := by decide
  obtain ⟨outcome, hanswer, hnone⟩ := Option.map_eq_some_iff.mp hrefused
  cases outcome with
  | ok h' => cases hnone
  | error e =>
    exact ⟨hlength, hshared, hconnected, hunconnected, heps, ⟨h', hset', hread⟩, e, hanswer,
      herror _ e hanswer⟩

end LifetimeEfficiency.Handles
