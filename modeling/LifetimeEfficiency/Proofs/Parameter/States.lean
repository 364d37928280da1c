import LifetimeEfficiency.Parameter.Basic
/-!
# States and their ranges

When a state takes a new value, and when a floating one is made at all. Every comparison fails for an undefined number, so it is in no
range and ends none.
-/
namespace LifetimeEfficiency.ParameterState

variable {K : Type} [Scalar K]

/-- A number lies in a range if it is between the ends. Without ends it only has to compare with itself. -/
def InRange : Option (K × K) → K → Prop
  | some (lo, hi), v => lo ≤ v ∧ v ≤ hi
  | none, v => v ≤ v

/-- The ends of a range. Those of a missing one are infinite: whatever compares with itself is between them. -/
def Ends : Option (K × K) → K → K → Prop
  | some ends, lo, hi => ends = (lo, hi)
  | none, lo, hi => ∀ v : K, v ≤ v ↔ lo ≤ v ∧ v ≤ hi

def Fits (state : ParameterState K) : Prop :=
  ∀ lo hi, state.range = some (lo, hi) → lo < hi ∧ lo ≤ state.value ∧ state.value ≤ hi

variable {state state' : ParameterState K} {name : String} {range : Option (K × K)} {value v lo hi : K}

theorem admits_iff : admits range v = true ↔ InRange range v := by
  cases range with
  | none => simp [admits, InRange]
  | some ends => simp [admits, InRange, Scalar.within]

theorem inRange_iff_of_ends (h : Ends range lo hi) : InRange range v ↔ lo ≤ v ∧ v ≤ hi := by
  cases range with
  | none => exact h v
  | some ends =>
    obtain rfl : ends = (lo, hi) := h
    exact Iff.rfl

theorem floating_eq_ok_iff : floating name value lo hi = .ok state ↔
    lo < hi ∧ lo ≤ value ∧ value ≤ hi ∧ state = ⟨name, value, some (lo, hi), false⟩ := by
  have hadmits : admits (some (lo, hi)) value = true ↔ lo ≤ value ∧ value ≤ hi := admits_iff
  unfold floating
  by_cases hlt : lo < hi
  · by_cases hin : lo ≤ value ∧ value ≤ hi
    · simp [hlt, hadmits.mpr hin, hin, eq_comm]
    · simp [hlt, mt hadmits.mp hin, ← and_assoc, hin]
  · simp [hlt]

theorem setValue_eq_ok_iff : state.setValue v = .ok state' ↔
    state.constant = false ∧ InRange state.range v ∧ state' = { state with value := v } := by
  unfold setValue
  cases hconstant : state.constant with
  | true => simp
  | false =>
    by_cases hin : InRange state.range v
    · simp [admits_iff.mpr hin, hin, eq_comm]
    · simp [mt admits_iff.mp hin, hin]

theorem fits_constantly : (constantly name value).Fits := nofun

theorem fits_of_floating (h : floating name value lo hi = .ok state) : state.Fits := by
  obtain ⟨hlt, hle, hge, rfl⟩ := floating_eq_ok_iff.mp h
  intro lo' hi' hrange
  cases hrange
  exact ⟨hlt, hle, hge⟩

theorem Fits.setValue (hstate : state.Fits) (h : state.setValue v = .ok state') : state'.Fits := by
  obtain ⟨-, hin, rfl⟩ := setValue_eq_ok_iff.mp h
  intro lo hi hrange
  dsimp only at hrange
  rw [hrange] at hin
  exact ⟨(hstate lo hi hrange).1, hin⟩

theorem Fits.setConstant (hstate : state.Fits) (constant : Bool) : (state.setConstant constant).Fits :=
  hstate

end LifetimeEfficiency.ParameterState
