import LifetimeEfficiency.Proofs.Banded.Columns
import Mathlib.Algebra.BigOperators.Group.Finset.Piecewise
/-!
# Pivots of a symmetric system

In exact arithmetic the columns multiply out to the rows for as long as no pivot vanishes. Each pivot is then the value of the quadratic
form of the system at unknowns among which that of its row is one and those of the rows below are zero.
-/
namespace LifetimeEfficiency.Pentadiagonal

variable {K : Type} [Field K] [LinearOrder K]

theorem diag_padded (A : Pentadiagonal K) (i : Nat) :
    (A.padded (i + 2)).d + (A.padded (i + 1)).l1 * (A.padded (i + 1)).l1 * (A.padded (i + 1)).d +
      (A.padded i).l2 * (A.padded i).l2 * (A.padded i).d = (A.row i).diag := by
  simp only [padded, Row.column]
  ring

theorem factored_padded {A : Pentadiagonal K} {m : Nat} (h : ∀ i < m, A.pivot i ≠ 0) :
    A.Factored m A.padded where
  zero := rfl
  one := rfl
  row := by
    intro i hi
    have hne : (A.padded (i + 2)).d ≠ 0 := h i hi
    refine ⟨hne, A.diag_padded i, ?_, ?_⟩
    · have hl1 : (A.padded (i + 2)).l1 = ((A.row i).first - (A.padded (i + 1)).l2 *
          (A.padded (i + 1)).l1 * (A.padded (i + 1)).d) / (A.padded (i + 2)).d := rfl
      rw [hl1, div_mul_cancel₀ _ hne, sub_add_cancel]
    · exact div_mul_cancel₀ _ hne

/-- Unknowns that `Lᵀ` takes to one in row `i` and to zero in the others. -/
def direction (A : Pentadiagonal K) (i : Nat) : List K :=
  backward ((List.range (i + 1)).map A.step) (List.replicate i 0 ++ [1])

theorem length_direction (A : Pentadiagonal K) (i : Nat) : (A.direction i).length = i + 1 := by
  rw [direction, length_backward (by simp), List.length_map, List.length_range]

theorem direction_eq_zero (A : Pentadiagonal K) {i j : Nat} (hj : i < j) : (A.direction i).getD j 0 = 0 :=
  List.getD_eq_default _ _ (by rw [length_direction]; exact hj)

theorem direction_row (A : Pentadiagonal K) {i j : Nat} (hj : j ≤ i) :
    let x := fun j => (A.direction i).getD j 0
    x j + (A.step j).l1 * x (j + 1) + (A.step j).l2 * x (j + 2) = if j = i then 1 else 0 := by
  have hlen : (List.replicate i 0 ++ [(1 : K)]).length = ((List.range (i + 1)).map A.step).length := by
    simp
  have hlt : j < ((List.range (i + 1)).map A.step).length := by
    simpa using Nat.lt_succ_of_le hj
  have hrow := backward_row hlen hlt
  have hstep : ((List.range (i + 1)).map A.step).getD j Step.zero = A.step j := by
    rw [List.getD_eq_getElem _ _ hlt]
    simp
  rw [hstep] at hrow
  refine hrow.trans ?_
  rcases hj.lt_or_eq with hlt | rfl
  · rw [if_neg hlt.ne, List.getD_append _ _ _ _ (by simpa using hlt), List.getD_replicate _ hlt]
  · rw [if_pos rfl, List.getD_append_right _ _ _ _ (by simp)]
    simp

theorem direction_self (A : Pentadiagonal K) (i : Nat) : (A.direction i).getD i 0 = 1 := by
  have hrow := A.direction_row (le_refl i)
  have h1 : (A.direction i).getD (i + 1) 0 = 0 := A.direction_eq_zero (Nat.lt_succ_self i)
  have h2 : (A.direction i).getD (i + 2) 0 = 0 := A.direction_eq_zero (by omega)
  dsimp only at hrow
  rwa [h1, h2, mul_zero, mul_zero, add_zero, add_zero, if_pos rfl] at hrow

theorem scaled_direction (A : Pentadiagonal K) {i j : Nat} (hj : j < i + 2) :
    scaled A.padded (A.direction i) j = 0 := by
  match j, hj with
  | 0, _ => simp [scaled, padded, Step.zero]
  | 1, _ => simp [scaled, padded, Step.zero]
  | j + 2, hj =>
    have hlt : j < i := Nat.lt_of_add_lt_add_right hj
    have hrow := A.direction_row hlt.le
    rw [if_neg hlt.ne] at hrow
    exact mul_eq_zero_of_right _ hrow

section Form

variable {A : Pentadiagonal K} {i : Nat} (h : ∀ j < i, A.pivot j ≠ 0)

include h

theorem times_direction_of_lt {j : Nat} (hj : j < i) : A.times (A.direction i) j = 0 := by
  rw [(factored_padded h).times_eq hj, A.scaled_direction (by omega), A.scaled_direction (by omega),
    A.scaled_direction (by omega), mul_zero, mul_zero, add_zero, add_zero]

/-- The pivot of the row itself is not divided by. -/
theorem times_direction_self : A.times (A.direction i) i = A.pivot i := by
  let x := fun j => (0 :: 0 :: A.direction i).getD j 0
  have h2 : x (i + 2) = 1 := A.direction_self i
  have h3 : x (i + 3) = 0 := A.direction_eq_zero (Nat.lt_succ_self i)
  have h4 : x (i + 4) = 0 := A.direction_eq_zero (by omega)
  have hlower := (factored_padded h).lower_eq (A.diag_padded i) x
  have hone : (A.padded (i + 1)).d * (x (i + 1) + (A.padded (i + 1)).l1 * x (i + 2)) = 0 := by
    have hscaled := A.scaled_direction (Nat.lt_succ_self (i + 1))
    change (A.padded (i + 1)).d *
      (x (i + 1) + (A.padded (i + 1)).l1 * x (i + 2) + (A.padded (i + 1)).l2 * x (i + 3)) = 0 at hscaled
    rwa [h3, mul_zero, add_zero] at hscaled
  have hzero : (A.padded i).d * (x i + (A.padded i).l1 * x (i + 1) + (A.padded i).l2 * x (i + 2)) = 0 :=
    A.scaled_direction (by omega)
  change _ + A.first.getD i 0 * x (i + 3) + A.second.getD i 0 * x (i + 4) = A.pivot i
  rw [hlower, hone, hzero, h2, h3, h4]
  simp only [mul_zero, mul_one, add_zero]
  rfl

/-- A pivot is the value of the form at its direction. -/
theorem sum_times_direction {n : Nat} (hi : i < n) :
    ∑ j ∈ Finset.range n, (A.direction i).getD j 0 * A.times (A.direction i) j = A.pivot i := by
  rw [Finset.sum_eq_single_of_mem i (Finset.mem_range.mpr hi), A.direction_self, times_direction_self h,
    one_mul]
  intro j _ hne
  rcases hne.lt_or_gt with hlt | hgt
  · rw [times_direction_of_lt h hlt, mul_zero]
  · rw [A.direction_eq_zero hgt, zero_mul]

end Form

section Scale

theorem entry_eq_zero {diag first second : List K} {A : Pentadiagonal K}
    (hA : ofBands diag first second = .ok A) {i j : Nat} (hi : i < A.dimension) (hj : A.dimension ≤ j) :
    A.entry i j = 0 := by
  obtain ⟨rfl, -, hfirst, hsecond⟩ := ofBands_eq_ok_iff.mp hA
  change i < diag.length at hi
  change diag.length ≤ j at hj
  obtain ⟨e, rfl⟩ := Nat.exists_eq_add_of_le (hi.le.trans hj)
  match e with
  | 0 => omega
  | 1 => simp [entry, List.getElem?_eq_none (l := first) (i := i) (by omega)]
  | 2 => simp [entry, List.getElem?_eq_none (l := second) (i := i) (by omega)]
  | e + 3 => simp [entry]

theorem scale_eq (A : Pentadiagonal K) (i : Nat) :
    (A.row i).scale = max (max (max (max |A.entry i i| |A.entry i (i + 1)|)
      |if 1 ≤ i then A.entry (i - 1) i else 0|) |A.entry i (i + 2)|)
      |if 2 ≤ i then A.entry (i - 2) i else 0| := by
  simp [row]

variable [IsStrictOrderedRing K]

theorem scale_nonneg (A : Pentadiagonal K) (i : Nat) : 0 ≤ (A.row i).scale := by
  rw [scale_eq]
  exact (abs_nonneg _).trans (le_max_right _ _)

theorem scale_le {diag first second : List K} {A : Pentadiagonal K}
    (hA : ofBands diag first second = .ok A) {i : Nat} (hi : i < A.dimension) {x : K}
    (h : ∀ j < A.dimension, |A.entry i j| ≤ x) : (A.row i).scale ≤ x := by
  have hx : 0 ≤ x := (abs_nonneg _).trans (h i hi)
  have hright (j : Nat) : |A.entry i j| ≤ x := by
    rcases Nat.lt_or_ge j A.dimension with hlt | hge
    · exact h j hlt
    · rw [entry_eq_zero hA hi hge, abs_zero]
      exact hx
  have hleft (m : Nat) : |if m ≤ i then A.entry (i - m) i else 0| ≤ x := by
    split_ifs with hm
    · rw [entry_comm]
      exact hright (i - m)
    · rw [abs_zero]
      exact hx
  rw [scale_eq]
  exact max_le (max_le (max_le (max_le (hright i) (hright _)) (hleft 1)) (hright _)) (hleft 2)

theorem accepts_iff {A : Pentadiagonal K} {i : Nat} :
    A.Accepts i ↔ Banded.pivotTolerance * (A.row i).scale < |A.pivot i| := by
  rw [Accepts, Banded.checkPivot_eq (A.scale_nonneg i)]
  by_cases h : Banded.pivotTolerance * (A.row i).scale < |A.pivot i|
  · simp [h]
  · simp [h]

end Scale

end LifetimeEfficiency.Pentadiagonal
