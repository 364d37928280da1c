import LifetimeEfficiency.Proofs.Banded.Pentadiagonal
import LifetimeEfficiency.Proofs.Banded.Solutions
import Mathlib.LinearAlgebra.Matrix.Block
import Mathlib.LinearAlgebra.Matrix.Nondegenerate
/-!
# Factors of a pentadiagonal system

The columns that elimination keeps are those of a unit lower triangular matrix, and with the pivots between it and its transpose they
give every entry of the system back. No pivot is zero, so the determinant is not, and there is one solution only.
-/
namespace LifetimeEfficiency

open Finset Matrix

variable {K : Type} [Field K] [LinearOrder K]

namespace Banded

def matrix (n : Nat) (entry : Nat → Nat → K) : Matrix (Fin n) (Fin n) K := Matrix.of fun i j => entry i j

omit [LinearOrder K] in
theorem Solution.mulVec_eq {entry : Nat → Nat → K} {rhs xs : List K} (h : Solution entry rhs xs) :
    matrix rhs.length entry *ᵥ (fun j : Fin rhs.length => xs.getD j 0) =
      fun i : Fin rhs.length => rhs.getD i 0 := by
  funext i
  rw [← h.row i i.isLt, Finset.sum_range]
  rfl

omit [LinearOrder K] in
theorem Solution.unique {entry : Nat → Nat → K} {rhs xs ys : List K}
    (hdet : (matrix rhs.length entry).det ≠ 0) (hx : Solution entry rhs xs) (hy : Solution entry rhs ys) :
    ys = xs := by
  have hzero : matrix rhs.length entry *ᵥ
      ((fun j : Fin rhs.length => ys.getD j 0) - fun j : Fin rhs.length => xs.getD j 0) = 0 := by
    rw [mulVec_sub, hx.mulVec_eq, hy.mulVec_eq, sub_self]
  have hsame := sub_eq_zero.mp (eq_zero_of_mulVec_eq_zero hdet hzero)
  apply List.ext_getElem (hy.length.trans hx.length.symm)
  intro i hi hi'
  have hat := congrFun hsame ⟨i, hx.length ▸ hi'⟩
  dsimp only at hat
  rwa [List.getD_eq_getElem _ _ hi, List.getD_eq_getElem _ _ hi'] at hat

end Banded

namespace Pentadiagonal

theorem entry_far (A : Pentadiagonal K) (i e : Nat) : A.entry i (i + (e + 3)) = 0 := by
  simp [entry]

/-- What a column of the lower factor holds, counted from its diagonal entry down. -/
def Step.below (s : Step K) : Nat → K
  | 0 => 1
  | 1 => s.l1
  | 2 => s.l2
  | _ => 0

def lowerEntry (steps : List (Step K)) (i j : Nat) : K :=
  if j ≤ i then (steps.getD j Step.zero).below (i - j) else 0

def lower (n : Nat) (steps : List (Step K)) : Matrix (Fin n) (Fin n) K := Banded.matrix n (lowerEntry steps)

def pivots (n : Nat) (steps : List (Step K)) : Matrix (Fin n) (Fin n) K :=
  Matrix.diagonal fun i => (steps.getD i Step.zero).d

theorem isLowerTriangular_lower (n : Nat) (steps : List (Step K)) : (lower n steps).IsLowerTriangular := by
  intro i j hij
  exact if_neg (Nat.not_le.mpr hij)

theorem lower_diag (n : Nat) (steps : List (Step K)) (i : Fin n) : lower n steps i i = 1 := by
  simp [lower, Banded.matrix, lowerEntry, Step.below]

theorem det_lower (n : Nat) (steps : List (Step K)) : (lower n steps).det = 1 := by
  rw [det_of_isLowerTriangular _ (isLowerTriangular_lower n steps)]
  exact Finset.prod_eq_one fun i _ => lower_diag n steps i

theorem sum_lowerEntry (steps : List (Step K)) (f : Nat → K) {n i : Nat} (hi : i < n) :
    ∑ k ∈ range n, lowerEntry steps i k * f (k + 2) =
      f (i + 2) + (column steps (i + 1)).l1 * f (i + 1) + (column steps i).l2 * f i := by
  have hterm (k : Nat) : lowerEntry steps i k * f (k + 2) =
      (if k + 0 = i then f (k + 2) else 0) +
        (if k + 1 = i then (column steps (k + 2)).l1 * f (k + 2) else 0) +
        (if k + 2 = i then (column steps (k + 2)).l2 * f (k + 2) else 0) := by
    rcases Nat.lt_or_ge i k with hlt | hge
    · rw [lowerEntry, if_neg (by omega), if_neg (by omega), if_neg (by omega), if_neg (by omega)]
      simp
    · obtain ⟨e, rfl⟩ := Nat.exists_eq_add_of_le hge
      rw [lowerEntry, if_pos hge, Nat.add_sub_cancel_left]
      match e with
      | 0 => simp [Step.below]
      | 1 => simp [Step.below, column]
      | 2 => simp [Step.below, column]
      | e + 3 => simp [Step.below]
  have h0 := Banded.sum_left hi (m := 0) (f := fun j => f (j + 2)) (by simp)
  have h1 := Banded.sum_left hi (m := 1) (f := fun j => (column steps (j + 1)).l1 * f (j + 1)) (by
    intro j hj
    obtain rfl := Nat.lt_one_iff.mp hj
    simp [column, Step.zero])
  have h2 := Banded.sum_left hi (m := 2) (f := fun j => (column steps j).l2 * f j) (by
    intro j hj
    obtain rfl | rfl : j = 0 ∨ j = 1 := by omega
    · simp [column, Step.zero]
    · simp [column, Step.zero])
  rw [sum_congr rfl fun k _ => hterm k, sum_add_distrib, sum_add_distrib]
  exact congrArg₂ (· + ·) (congrArg₂ (· + ·) h0 h1) h2

section Factors

variable {A : Pentadiagonal K} {steps : List (Step K)} (h : A.factor = .ok steps)

include h

theorem product_entry {i e : Nat} (hi : i < A.dimension) :
    (column steps (i + 2)).d * (column steps (i + 2)).below e +
        (column steps (i + 1)).l1 * ((column steps (i + 1)).d * (column steps (i + 1)).below (e + 1)) +
        (column steps i).l2 * ((column steps i).d * (column steps i).below (e + 2)) =
      A.entry i (i + e) := by
  -- The entry `e` places right of the diagonal comes from the three columns that reach its row.
  obtain ⟨-, hdiag, hfirst, hsecond⟩ := (factored h).row i hi
  match e with
  | 0 =>
    refine Eq.trans ?_ hdiag
    simp only [Step.below]
    ring
  | 1 =>
    refine Eq.trans ?_ hfirst
    simp only [Step.below]
    ring
  | 2 =>
    refine Eq.trans ?_ hsecond
    simp only [Step.below]
    ring
  | e + 3 =>
    rw [entry_far]
    simp only [Step.below]
    ring

theorem sum_product {i e : Nat} (hi : i < A.dimension) :
    ∑ k ∈ range A.dimension,
        lowerEntry steps i k * ((steps.getD k Step.zero).d * lowerEntry steps (i + e) k) =
      A.entry i (i + e) := by
  let f (m : Nat) : K :=
    (column steps m).d * if m ≤ i + e + 2 then (column steps m).below (i + e + 2 - m) else 0
  have hsum := sum_lowerEntry steps f hi
  have hterm (k : Nat) : f (k + 2) = (steps.getD k Step.zero).d * lowerEntry steps (i + e) k := by
    simp [f, column, lowerEntry]
  have hreach (m c : Nat) (hm : m + c = i + e + 2) :
      f m = (column steps m).d * (column steps m).below c := by
    have hc : i + e + 2 - m = c := by omega
    simp only [f, if_pos (show m ≤ i + e + 2 by omega), hc]
  simp only [hterm] at hsum
  rw [hsum, hreach i (e + 2) (by omega), hreach (i + 1) (e + 1) (by omega), ← hterm,
    hreach (i + 2) e (by omega)]
  exact product_entry h hi

theorem lower_mul_pivots_mul_transpose :
    lower A.dimension steps * pivots A.dimension steps * (lower A.dimension steps)ᵀ =
      Banded.matrix A.dimension A.entry := by
  have hentry (i j : Fin A.dimension) :
      (lower A.dimension steps * pivots A.dimension steps * (lower A.dimension steps)ᵀ) i j =
        ∑ k ∈ range A.dimension,
          lowerEntry steps i k * ((steps.getD k Step.zero).d * lowerEntry steps j k) := by
    rw [Matrix.mul_apply, Finset.sum_range]
    refine sum_congr rfl fun k _ => ?_
    rw [pivots, mul_diagonal, mul_assoc]
    rfl
  ext i j
  rw [hentry]
  rcases le_total (i : Nat) j with hle | hle
  · obtain ⟨e, he⟩ := Nat.exists_eq_add_of_le hle
    rw [he, sum_product h i.isLt, ← he]
    rfl
  · obtain ⟨e, he⟩ := Nat.exists_eq_add_of_le hle
    have hswap := sum_product h (e := e) j.isLt
    rw [← he, A.entry_comm] at hswap
    rw [← show A.entry i j = Banded.matrix A.dimension A.entry i j from rfl, ← hswap]
    exact sum_congr rfl fun k _ => by ring

theorem det_ne_zero : (Banded.matrix A.dimension A.entry).det ≠ 0 := by
  rw [← lower_mul_pivots_mul_transpose h, det_mul, det_mul, det_transpose, det_lower, one_mul, mul_one,
    pivots, det_diagonal]
  apply Finset.prod_ne_zero_iff.mpr
  intro i _
  exact ((factored h).row i i.isLt).ne_zero

end Factors

theorem entry_eq (A : Pentadiagonal K) (i j : Nat) :
    A.entry i j = (if j + 2 = i then A.second.getD j 0 else 0) +
      (if j + 1 = i then A.first.getD j 0 else 0) + (if j = i + 0 then A.diag.getD i 0 else 0) +
      (if j = i + 1 then A.first.getD i 0 else 0) + (if j = i + 2 then A.second.getD i 0 else 0) := by
  rcases le_total i j with hle | hle
  · obtain ⟨e, rfl⟩ := Nat.exists_eq_add_of_le hle
    match e with
    | 0 => simp [entry]
    | 1 => simp [entry, add_assoc]
    | 2 => simp [entry, add_assoc]
    | e + 3 => simp [entry_far, add_assoc]
  · obtain ⟨e, rfl⟩ := Nat.exists_eq_add_of_le hle
    rw [A.entry_comm]
    match e with
    | 0 => simp [entry]
    | 1 => simp [entry, add_assoc]
    | 2 => simp [entry, add_assoc]
    | e + 3 => simp [entry_far, add_assoc]

theorem solution_of_solve {A : Pentadiagonal K} {rhs xs : List K} (h : A.solve rhs = .ok xs) :
    Banded.Solution A.entry rhs xs := by
  obtain ⟨hrhs, -⟩ := solve_eq_ok_iff.mp h
  have hxs := length_of_solve h
  refine ⟨hxs.trans hrhs.symm, ?_⟩
  intro i hi
  rw [hrhs] at hi ⊢
  simp only [entry_eq, add_mul, ite_mul, zero_mul, sum_add_distrib]
  rw [Banded.sum_below hi, Banded.sum_below hi, Banded.sum_above _ hxs, Banded.sum_above _ hxs,
    Banded.sum_above _ hxs]
  exact row_of_solve h hi

/-- The factors of a system multiply out to its matrix, whose solutions for all right-hand sides are what is returned and no others. -/
theorem factors_multiply_out (A : Pentadiagonal K) :
    (∀ steps, A.factor = .ok steps →
      lower A.dimension steps * pivots A.dimension steps * (lower A.dimension steps)ᵀ =
          Banded.matrix A.dimension A.entry ∧
        ∀ rhs, rhs.length = A.dimension → ∃ xs, A.solve rhs = .ok xs) ∧
    ∀ rhs xs, A.solve rhs = .ok xs →
      Banded.Solution A.entry rhs xs ∧ ∀ ys, Banded.Solution A.entry rhs ys → ys = xs := by
  constructor
  · intro steps hsteps
    refine ⟨lower_mul_pivots_mul_transpose hsteps, ?_⟩
    intro rhs hrhs
    exact ⟨_, solve_eq_ok_iff.mpr ⟨hrhs, steps, hsteps, rfl⟩⟩
  · intro rhs xs h
    have hsolution := solution_of_solve h
    refine ⟨hsolution, ?_⟩
    intro ys hys
    obtain ⟨hrhs, steps, hsteps, -⟩ := solve_eq_ok_iff.mp h
    have hdet : (Banded.matrix rhs.length A.entry).det ≠ 0 := by
      rw [hrhs]
      exact det_ne_zero hsteps
    exact hsolution.unique hdet hys

deriving instance DecidableEq for Step

theorem factors_multiply_out_at_four_rows :
    let A : Pentadiagonal ℚ := ⟨[4, 3, 5, 2], [1, -1, 2], [1 / 2, 1]⟩
    let steps : List (Step ℚ) :=
      [⟨4, 1 / 4, 1 / 8⟩, ⟨11 / 4, -9 / 22, 4 / 11⟩, ⟨197 / 44, 106 / 197, 0⟩, ⟨67 / 197, 0, 0⟩]
    let xs : List ℚ := [116 / 67, -257 / 67, -280 / 67, 509 / 67]
    A.factor = .ok steps ∧ A.solve [1, 2, -1, 3] = .ok xs ∧
      lower 4 steps * pivots 4 steps * (lower 4 steps)ᵀ = Banded.matrix 4 A.entry ∧
      Banded.Solution A.entry [1, 2, -1, 3] xs ∧
      ∀ ys, Banded.Solution A.entry [1, 2, -1, 3] ys → ys = xs := by
  intro A steps xs
  have hsteps : A.factor = .ok steps := by decide +kernel
  have hxs : A.solve [1, 2, -1, 3] = .ok xs := by decide +kernel
  obtain ⟨hfactor, hsolve⟩ := factors_multiply_out A
  exact ⟨hsteps, hxs, (hfactor steps hsteps).1, hsolve _ _ hxs⟩

end Pentadiagonal
end LifetimeEfficiency
