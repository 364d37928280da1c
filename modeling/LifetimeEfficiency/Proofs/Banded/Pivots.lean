import LifetimeEfficiency.Proofs.Banded.Tridiagonal
import Mathlib.Data.List.GetD
/-!
# Pivots of a tridiagonal system

The pivots that elimination meets as long as it refuses none of them. It succeeds when each exceeds its part of its row, and otherwise
stops at one that does not.
-/
namespace LifetimeEfficiency

variable {K : Type} [Field K] [LinearOrder K] [IsStrictOrderedRing K]

namespace Banded

theorem pivotTolerance_pos : 0 < (pivotTolerance : K) := by
  simp [pivotTolerance]

theorem pivotTolerance_lt_half : (pivotTolerance : K) < 1 / 2 := by
  simp only [pivotTolerance, Scalar.exact_one]
  norm_num

/-- In exact arithmetic the size of a pivot against its row decides alone. -/
theorem checkPivot_eq {pivot rowScale : K} (hscale : 0 ≤ rowScale) (row : Nat) :
    checkPivot pivot rowScale row =
      if pivotTolerance * rowScale < |pivot| then .ok pivot else .error (.zeroPivot row) := by
  unfold checkPivot
  by_cases h : pivotTolerance * rowScale < |pivot|
  · have hne : pivot ≠ 0 := abs_pos.mp ((mul_nonneg pivotTolerance_pos.le hscale).trans_lt h)
    simp [h, hne]
  · simp [h, not_lt.mp h]

/-- A scan that keeps a step of each row it accepts, and stops at the first row that it does not, ends in one of these two ways. -/
theorem scan_cases {α : Type} {n : Nat} (scan : Nat → Except BandedError (List α)) {step : Nat → α}
    {accepts : Nat → Prop} (hend : scan n = .ok [])
    (hnext : ∀ i < n, accepts i → scan i = (scan (i + 1)).map (step i :: ·))
    (hstop : ∀ i < n, ¬ accepts i → scan i = .error (.zeroPivot i)) :
    (∀ i < n, accepts i) ∧ scan 0 = .ok ((List.range n).map step) ∨
      ∃ i < n, ¬ accepts i ∧ (∀ j < i, accepts j) ∧ scan 0 = .error (.zeroPivot i) := by
  have hfrom {i : Nat} (hi : i ≤ n) :
      (∀ m, i ≤ m → m < n → accepts m) ∧ scan i = .ok ((List.range' i (n - i)).map step) ∨
        ∃ j < n, ¬ accepts j ∧ (∀ m, i ≤ m → m < j → accepts m) ∧ scan i = .error (.zeroPivot j) := by
    induction hi using Nat.decreasingInduction with
    | self =>
      left
      rw [hend, Nat.sub_self]
      exact ⟨fun m hm hlt => absurd hlt (Nat.not_lt.mpr hm), rfl⟩
    | of_succ i hi ih =>
      by_cases haccept : accepts i
      · have hall {j : Nat} (h : ∀ m, i + 1 ≤ m → m < j → accepts m) (m : Nat) (hm : i ≤ m)
            (hlt : m < j) : accepts m := by
          rcases hm.eq_or_lt with rfl | hm
          · exact haccept
          · exact h m hm hlt
        rw [hnext i hi haccept]
        rcases ih with ⟨hrest, hsteps⟩ | ⟨j, hj, hrefused, hbefore, herror⟩
        · left
          have hlen : n - i = n - (i + 1) + 1 := by omega
          rw [hsteps, hlen, List.range'_succ]
          exact ⟨hall hrest, rfl⟩
        · right
          rw [herror]
          exact ⟨j, hj, hrefused, hall hbefore, rfl⟩
      · right
        exact ⟨i, hi, haccept, fun m hm hlt => absurd hlt (Nat.not_lt.mpr hm), hstop i hi haccept⟩
  have hall := hfrom (Nat.zero_le n)
  rw [Nat.sub_zero, ← List.range_eq_range'] at hall
  simpa only [Nat.zero_le, true_imp_iff] using hall

end Banded

namespace Tridiagonal

theorem Row.scale_nonneg (r : Row K) : 0 ≤ r.scale :=
  (abs_nonneg _).trans ((le_max_left _ _).trans (le_max_left _ _))

omit [IsStrictOrderedRing K] in
theorem Row.scale_le {r : Row K} {x : K} (hdiag : |r.diag| ≤ x) (hbelow : |r.below| ≤ x)
    (habove : |r.above| ≤ x) : r.scale ≤ x :=
  max_le (max_le hdiag hbelow) habove

def row (A : Tridiagonal K) (i : Nat) : Row K := A.rows.getD i ⟨0, 0, 0⟩

/-- The entry above the diagonal over the pivot in the row before row `i`. -/
def ratio (A : Tridiagonal K) : Nat → K
  | 0 => 0
  | i + 1 => (A.row i).above / ((A.row i).diag - (A.row i).below * A.ratio i)

def pivot (A : Tridiagonal K) (i : Nat) : K := (A.row i).diag - (A.row i).below * A.ratio i

omit [IsStrictOrderedRing K] in
theorem ratio_succ (A : Tridiagonal K) (i : Nat) : A.ratio (i + 1) = (A.row i).above / A.pivot i := rfl

def step (A : Tridiagonal K) (i : Nat) : Step K := ⟨(A.row i).below, A.pivot i, A.ratio (i + 1)⟩

/-- The pivot of a row is more than a small part of the largest entry. -/
def Accepts (A : Tridiagonal K) (i : Nat) : Prop :=
  Banded.pivotTolerance * (A.row i).scale < |A.pivot i|

theorem accepts_of_scale_le {A : Tridiagonal K} {i : Nat} (hne : A.pivot i ≠ 0)
    (h : (A.row i).scale ≤ 2 * |A.pivot i|) : A.Accepts i := by
  have hpos : 0 < |A.pivot i| := abs_pos.mpr hne
  calc
    Banded.pivotTolerance * (A.row i).scale ≤ Banded.pivotTolerance * (2 * |A.pivot i|) :=
      mul_le_mul_of_nonneg_left h Banded.pivotTolerance_pos.le
    _ < 1 / 2 * (2 * |A.pivot i|) := by
      apply mul_lt_mul_of_pos_right Banded.pivotTolerance_lt_half
      positivity
    _ = |A.pivot i| := by
      ring

omit [IsStrictOrderedRing K] in
theorem rows_drop (A : Tridiagonal K) {i : Nat} (hi : i < A.rows.length) :
    A.rows.drop i = A.row i :: A.rows.drop (i + 1) := by
  rw [List.drop_eq_getElem_cons hi, row, List.getD_eq_getElem _ _ hi]

/-! One row of the elimination, which has come so far with the ratio of the row before. -/

theorem eliminate_of_accepts {A : Tridiagonal K} {i : Nat} (hi : i < A.rows.length) (h : A.Accepts i) :
    eliminate i (A.ratio i) (A.rows.drop i) =
      (eliminate (i + 1) (A.ratio (i + 1)) (A.rows.drop (i + 1))).map
        (A.step i :: ·) := by
  have hcheck : Banded.checkPivot (A.pivot i) (A.row i).scale i = .ok (A.pivot i) := by
    rw [Banded.checkPivot_eq (A.row i).scale_nonneg]
    exact if_pos h
  rw [A.rows_drop hi, eliminate, ← pivot, hcheck]
  rfl

theorem eliminate_of_not_accepts {A : Tridiagonal K} {i : Nat} (hi : i < A.rows.length)
    (h : ¬ A.Accepts i) : eliminate i (A.ratio i) (A.rows.drop i) = .error (.zeroPivot i) := by
  have hcheck : Banded.checkPivot (A.pivot i) (A.row i).scale i = .error (.zeroPivot i) := by
    rw [Banded.checkPivot_eq (A.row i).scale_nonneg]
    exact if_neg h
  rw [A.rows_drop hi, eliminate, ← pivot, hcheck]
  rfl

/-- Elimination keeps the steps of all rows or stops at the first row that is not accepted. -/
theorem factor_cases (A : Tridiagonal K) :
    (∀ i < A.rows.length, A.Accepts i) ∧ A.factor = .ok ((List.range A.rows.length).map A.step) ∨
      ∃ i < A.rows.length, ¬ A.Accepts i ∧ (∀ j < i, A.Accepts j) ∧
        A.factor = .error (.zeroPivot i) := by
  have hfactor : A.factor = eliminate 0 (A.ratio 0) (A.rows.drop 0) := by
    rw [factor, Scalar.exact_zero]
    rfl
  rw [hfactor]
  apply Banded.scan_cases fun i => eliminate i (A.ratio i) (A.rows.drop i)
  · rw [List.drop_length]
    rfl
  · exact fun i hi => eliminate_of_accepts hi
  · exact fun i hi => eliminate_of_not_accepts hi

theorem exists_factor {A : Tridiagonal K} (h : ∀ i < A.rows.length, A.Accepts i) :
    ∃ steps, A.factor = .ok steps := by
  rcases A.factor_cases with ⟨-, hok⟩ | ⟨j, hj, hstop, -⟩
  · exact ⟨_, hok⟩
  · exact absurd (h j hj) hstop

theorem pivots_of_factor {A : Tridiagonal K} {steps : List (Step K)} (h : A.factor = .ok steps) :
    steps.map (·.pivot) = (List.range A.rows.length).map A.pivot := by
  rcases A.factor_cases with ⟨-, hok⟩ | ⟨i, -, -, -, herror⟩
  · rw [h] at hok
    cases hok
    rw [List.map_map]
    rfl
  · rw [h] at herror
    cases herror

theorem factor_eq_error {A : Tridiagonal K} {e : BandedError} (h : A.factor = .error e) :
    ∃ i < A.rows.length, e = .zeroPivot i ∧ ¬ A.Accepts i := by
  rcases A.factor_cases with ⟨-, hok⟩ | ⟨i, hi, hstop, -, herror⟩
  · rw [h] at hok
    cases hok
  · rw [h] at herror
    cases herror
    exact ⟨i, hi, rfl, hstop⟩

/-! Multiplying the rows of a system, each by a positive number of its own, changes no decision. -/

def Row.times (m : K) (r : Row K) : Row K := ⟨m * r.below, m * r.diag, m * r.above⟩

theorem Row.scale_times {m : K} (hm : 0 < m) (r : Row K) : (r.times m).scale = m * r.scale := by
  simp only [scale, times, Scalar.exact_abs, abs_mul, abs_of_pos hm, mul_max_of_nonneg _ _ hm.le]

section Multiples

variable {A B : Tridiagonal K} (h : ∀ i, ∃ m, 0 < m ∧ B.row i = (A.row i).times m)

include h

omit [IsStrictOrderedRing K] in
theorem ratio_of_times (i : Nat) : B.ratio i = A.ratio i := by
  induction i with
  | zero => rfl
  | succ i ih =>
    obtain ⟨m, hm, hrow⟩ := h i
    rw [ratio_succ, ratio_succ, pivot, pivot, ih, hrow]
    simp only [Row.times]
    rw [mul_assoc, ← mul_sub, mul_div_mul_left _ _ hm.ne']

theorem accepts_iff_of_times (i : Nat) : B.Accepts i ↔ A.Accepts i := by
  obtain ⟨m, hm, hrow⟩ := h i
  have hpivot : B.pivot i = m * A.pivot i := by
    rw [pivot, pivot, ratio_of_times h, hrow]
    simp only [Row.times]
    ring
  rw [Accepts, Accepts, hpivot, hrow, Row.scale_times hm, abs_mul, abs_of_pos hm, mul_left_comm]
  exact mul_lt_mul_iff_right₀ hm

end Multiples

end Tridiagonal
end LifetimeEfficiency
