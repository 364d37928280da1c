import LifetimeEfficiency.Proofs.Parameter.Growth
import LifetimeEfficiency.Proofs.Parameter.States
import Mathlib.Logic.Function.Basic
/-!
# Changing stores

Parameters are created, moved and held constant. One change moves the value of one parameter at most, and no parameter is lost.
-/
namespace LifetimeEfficiency

variable {K : Type} [Scalar K]

namespace Store

inductive Change (K : Type)
  | create (state : ParameterState K)
  | setValue (p : Parameter) (value : K)
  | setConstant (p : Parameter) (constant : Bool)

def change (s : Store K) : Change K → Store K
  | .create state => (s.add state).2
  | .setValue p value =>
    match s.setValue p value with
    | .ok s' => s'
    | .error _ => s
  | .setConstant p constant => s.setConstant p constant

/-- The change asks for a new value of the parameter. -/
def Change.Moves (p : Parameter) : Change K → Prop
  | .setValue q _ => q = p
  | _ => False

variable {s s' : Store K} {p q : Parameter} {v : K}

omit [Scalar K] in
theorem holds_replace (state : ParameterState K) (hq : s.Holds q) : (s.replace p state).Holds q := by
  rw [Holds, replace, List.length_set]
  exact hq

theorem value_replace (hp : s.Holds p) (state : ParameterState K) :
    (s.replace p state).value = Function.update s.value p state.value := by
  funext q
  by_cases hpq : p = q
  · subst hpq
    rw [Function.update_self, value, state?_replace_self hp]
  · rw [Function.update_of_ne (Ne.symm hpq), value, value, state?_replace_of_ne hpq]

theorem setValue_of_state? {state : ParameterState K} (hstate : s.state? p = some state) :
    s.setValue p v = .ok s' ↔ state.constant = false ∧ ParameterState.InRange state.range v ∧
      s' = s.replace p { state with value := v } := by
  rw [setValue, hstate, bind_eq_ok_iff]
  constructor
  · rintro ⟨state', hset, hs'⟩
    cases hs'
    obtain ⟨hconstant, hin, rfl⟩ := ParameterState.setValue_eq_ok_iff.mp hset
    exact ⟨hconstant, hin, rfl⟩
  · rintro ⟨hconstant, hin, rfl⟩
    exact ⟨_, ParameterState.setValue_eq_ok_iff.mpr ⟨hconstant, hin, rfl⟩, rfl⟩

theorem setValue_of_none (hstate : s.state? p = none) (v : K) : s.setValue p v = .ok s := by
  rw [setValue, hstate]

omit [Scalar K] in
theorem setConstant_of_none (hstate : s.state? p = none) (constant : Bool) :
    s.setConstant p constant = s := by
  rw [setConstant, hstate]

omit [Scalar K] in
theorem setConstant_of_state? {state : ParameterState K} (hstate : s.state? p = some state)
    (constant : Bool) : s.setConstant p constant = s.replace p (state.setConstant constant) := by
  rw [setConstant, hstate]

theorem setValue_cases (h : s.setValue p v = .ok s') :
    s' = s ∧ ¬ s.Holds p ∨ s.Holds p ∧ ∃ state, state.value = v ∧ s' = s.replace p state := by
  cases hstate : s.state? p with
  | none =>
    rw [setValue_of_none hstate] at h
    cases h
    exact .inl ⟨rfl, Nat.not_lt.mpr (List.getElem?_eq_none_iff.mp hstate)⟩
  | some state =>
    obtain ⟨-, -, rfl⟩ := (setValue_of_state? hstate).mp h
    exact .inr ⟨(List.getElem?_eq_some_iff.mp hstate).1, _, rfl, rfl⟩

theorem setConstant_cases (s : Store K) (p : Parameter) (constant : Bool) :
    s.setConstant p constant = s ∨
      s.Holds p ∧ ∃ state, state.value = s.value p ∧ s.setConstant p constant = s.replace p state := by
  cases hstate : s.state? p with
  | none => exact .inl (setConstant_of_none hstate constant)
  | some state =>
    rw [setConstant_of_state? hstate]
    refine .inr ⟨(List.getElem?_eq_some_iff.mp hstate).1, _, ?_, rfl⟩
    rw [value, hstate]
    rfl

theorem value_of_setValue (hp : s.Holds p) (h : s.setValue p v = .ok s') :
    s'.value = Function.update s.value p v := by
  rcases setValue_cases h with ⟨-, hnot⟩ | ⟨-, state, rfl, rfl⟩
  · exact absurd hp hnot
  · exact value_replace hp state

theorem holds_change (c : Change K) (hq : s.Holds q) : (s.change c).Holds q := by
  cases c with
  | create state =>
    have hlt : q.cell < s.cells.length := hq
    simp only [change, Holds, add, List.length_append, List.length_singleton]
    omega
  | setValue p v =>
    rw [change]
    split
    · rename_i s' h
      rcases setValue_cases h with ⟨rfl, -⟩ | ⟨-, state, -, rfl⟩
      · exact hq
      · exact holds_replace state hq
    · exact hq
  | setConstant p constant =>
    rw [change]
    rcases s.setConstant_cases p constant with h | ⟨-, state, -, h⟩
    · rw [h]
      exact hq
    · rw [h]
      exact holds_replace state hq

theorem value_change {c : Change K} (hq : s.Holds q) (hc : ¬ c.Moves q) :
    (s.change c).value q = s.value q := by
  cases c with
  | create state => rw [change, value, value, state?_add_of_lt hq]
  | setValue p v =>
    rw [change]
    split
    · rename_i s' h
      rcases setValue_cases h with ⟨rfl, -⟩ | ⟨hp, state, -, rfl⟩
      · rfl
      · rw [value_replace hp, Function.update_of_ne (Ne.symm hc)]
    · rfl
  | setConstant p constant =>
    rw [change]
    rcases s.setConstant_cases p constant with h | ⟨hp, state, hvalue, h⟩
    · rw [h]
    · rw [h, value_replace hp, hvalue, Function.update_eq_self]

end Store
end LifetimeEfficiency
