import LifetimeEfficiency.Proofs.Banded.Pivots
import Mathlib.Algebra.BigOperators.Group.Finset.Piecewise
import Mathlib.Algebra.BigOperators.Ring.Finset
import Mathlib.Algebra.Order.Ring.Rat
/-!
# Solutions of a tridiagonal system

A solution is measured by the whole matrix, every row being summed over all of its columns. What elimination and substitution return is
the only one, and whether they return it is a matter of the bands.
-/
namespace LifetimeEfficiency

open Finset

variable {K : Type} [Field K]

namespace Banded

/-- One unknown for each right-hand side, which is what its row comes to over all columns. -/
structure Solution (entry : Nat → Nat → K) (rhs xs : List K) : Prop where
  length : xs.length = rhs.length
  row : ∀ i < rhs.length, ∑ j ∈ range rhs.length, entry i j * xs.getD j 0 = rhs.getD i 0

/-! The sum over a row has one term for each band. No column stands before the first one or after the last. -/

theorem sum_left {n i m : Nat} (hi : i < n) {f : Nat → K} (hf : ∀ j < m, f j = 0) :
    ∑ k ∈ range n, (if k + m = i then f (k + m) else 0) = f i := by
  rcases Nat.lt_or_ge i m with hlt | hge
  · rw [hf i hlt]
    apply sum_eq_zero
    intro k _
    exact if_neg (by omega)
  · obtain ⟨k, rfl⟩ := Nat.exists_eq_add_of_le' hge
    rw [sum_eq_single_of_mem k (mem_range.mpr (by omega)), if_pos rfl]
    intro j _ hj
    exact if_neg (by omega)

theorem sum_right {n i m : Nat} {f : Nat → K} (hf : ∀ j, n ≤ j → f j = 0) :
    ∑ k ∈ range n, (if k = i + m then f k else 0) = f (i + m) := by
  rw [sum_ite_eq']
  split_ifs with hlt
  · rfl
  · exact (hf _ (by simpa using hlt)).symm

theorem sum_below {n i m : Nat} (hi : i < n) (band xs : List K) :
    ∑ k ∈ range n, (if k + m = i then band.getD k 0 * xs.getD k 0 else 0) =
      (List.replicate m 0 ++ band).getD i 0 * (List.replicate m 0 ++ xs).getD i 0 := by
  have hpad (ys : List K) (k : Nat) : (List.replicate m 0 ++ ys).getD (k + m) 0 = ys.getD k 0 := by
    rw [List.getD_append_right _ _ _ _ (by simp), List.length_replicate, Nat.add_sub_cancel]
  have hzero : ∀ j < m,
      (List.replicate m 0 ++ band).getD j 0 * (List.replicate m 0 ++ xs).getD j 0 = 0 := by
    intro j hj
    rw [List.getD_append _ _ _ _ (by simpa using hj), List.getD_replicate _ hj, zero_mul]
  simpa only [hpad] using sum_left hi hzero

theorem sum_above {n i m : Nat} (a : K) {xs : List K} (hxs : xs.length = n) :
    ∑ k ∈ range n, (if k = i + m then a * xs.getD k 0 else 0) = a * xs.getD (i + m) 0 := by
  apply sum_right
  intro j hj
  rw [List.getD_eq_default _ _ (hxs ▸ hj), mul_zero]

end Banded

variable [LinearOrder K]

namespace Tridiagonal

theorem entry_eq (A : Tridiagonal K) (i j : Nat) :
    A.entry i j = (if j + 1 = i then A.sub.getD j 0 else 0) + (if j = i + 0 then A.diag.getD i 0 else 0) +
      (if j = i + 1 then A.sup.getD i 0 else 0) := by
  rw [entry, Scalar.exact_zero]
  grind

section Rows

variable {sub diag sup : List K} {A : Tridiagonal K} (hA : ofBands sub diag sup = .ok A)

include hA

theorem getElem_rows {i : Nat} (hi : i < A.rows.length) :
    A.rows[i] = ⟨(0 :: A.sub).getD i 0, A.diag.getD i 0, A.sup.getD i 0⟩ := by
  have hdim : i < A.dimension := length_rows hA ▸ hi
  obtain ⟨rfl, hne, hsub, hsup⟩ := ofBands_eq_ok_iff.mp hA
  have hdiag : i < diag.length := hdim
  have hbelow : i < (0 :: sub).length := by
    rw [List.length_cons]
    omega
  have habove : (sup ++ [0]).getD i 0 = sup.getD i 0 := by
    rcases Nat.lt_or_ge i sup.length with hlt | hge
    · exact List.getD_append _ _ _ _ hlt
    · obtain rfl : i = sup.length := by omega
      simp
  rw [← habove, List.getD_eq_getElem _ _ hbelow, List.getD_eq_getElem _ _ hdiag,
    List.getD_eq_getElem _ _ (by simp; omega)]
  simp [rows]

theorem sum_entry {xs : List K} (hxs : xs.length = A.dimension) {i : Nat} (hi : i < A.rows.length) :
    ∑ j ∈ range A.dimension, A.entry i j * xs.getD j 0 =
      A.rows[i].below * (0 :: xs).getD i 0 + A.rows[i].diag * xs.getD i 0 +
        A.rows[i].above * xs.getD (i + 1) 0 := by
  have hlt : i < A.dimension := length_rows hA ▸ hi
  simp only [entry_eq, add_mul, ite_mul, zero_mul, sum_add_distrib]
  rw [Banded.sum_below hlt, Banded.sum_above _ hxs, Banded.sum_above _ hxs, getElem_rows hA hi]
  rfl

theorem solves_iff {rhs xs : List K} (hrhs : rhs.length = A.dimension) :
    Solves 0 A.rows rhs xs ↔ Banded.Solution A.entry rhs xs := by
  have hlen := length_rows hA
  constructor
  · intro h
    have hxs := h.length_eq.trans hlen
    refine ⟨hxs.trans hrhs.symm, ?_⟩
    intro i hi
    rw [hrhs] at hi ⊢
    rw [sum_entry hA hxs (hlen.symm ▸ hi)]
    exact h.row (hlen.symm ▸ hi)
  · intro h
    have hxs := h.length.trans hrhs
    apply solves_of_rows (hrhs.trans hlen.symm) (hxs.trans hlen.symm)
    intro i hi
    rw [← sum_entry hA hxs hi, ← hrhs]
    exact h.row i (by rwa [hrhs, ← hlen])

end Rows

variable [IsStrictOrderedRing K]

/-- What an accepted system returns is the only solution. It has one for every right-hand side where all rows are accepted, and
otherwise stops at the first that is not, whatever the right-hand side. -/
theorem solve_unique {sub diag sup : List K} {A : Tridiagonal K} (hA : ofBands sub diag sup = .ok A) :
    (∀ rhs xs, rhs.length = diag.length → A.solve rhs = .ok xs →
      Banded.Solution A.entry rhs xs ∧ ∀ ys, Banded.Solution A.entry rhs ys → ys = xs) ∧
    ((∀ i < diag.length, A.Accepts i) ∧
        (∀ rhs, rhs.length = diag.length → ∃ xs, A.solve rhs = .ok xs) ∨
      ∃ row < diag.length, ¬ A.Accepts row ∧ (∀ i < row, A.Accepts i) ∧
        ∀ rhs, rhs.length = diag.length → A.solve rhs = .error (.zeroPivot row)) := by
  have hdim : A.dimension = diag.length := by
    obtain ⟨rfl, -⟩ := ofBands_eq_ok_iff.mp hA
    rfl
  have hrows : A.rows.length = diag.length := (length_rows hA).trans hdim
  rw [← hdim]
  constructor
  · intro rhs xs hrhs h
    constructor
    · exact (solves_iff hA hrhs).mp (solves_of_solve hA h)
    · intro ys hys
      obtain ⟨-, steps, hsteps, rfl⟩ := solve_eq_ok_iff.mp h
      rw [factor, Scalar.exact_zero] at hsteps
      have hx : (0 : K) = 0 - 0 * ys.headD 0 := by rw [zero_mul, sub_zero]
      simpa using eq_backward_of_solves hsteps ((solves_iff hA hrhs).mpr hys) hx
  · rw [hdim, ← hrows]
    rcases A.factor_cases with ⟨haccepts, hok⟩ | ⟨row, hrow, hstop, hbefore, herror⟩
    · refine .inl ⟨haccepts, ?_⟩
      intro rhs hrhs
      exact ⟨_, (solve_eq_map (hrhs.trans (length_rows hA))).trans (congrArg _ hok)⟩
    · refine .inr ⟨row, hrow, hstop, hbefore, ?_⟩
      intro rhs hrhs
      exact (solve_eq_map (hrhs.trans (length_rows hA))).trans (congrArg _ herror)

theorem solve_unique_at_three_rows :
    let A : Tridiagonal ℚ := ⟨[1, -2], [4, 3, 5], [2, 1]⟩
    let B : Tridiagonal ℚ := ⟨[1, -2], [4, 3, -4 / 5], [2, 1]⟩
    ofBands [1, -2] [4, 3, 5] [2, 1] = .ok A ∧ ofBands [1, -2] [4, 3, -4 / 5] [2, 1] = .ok B ∧
      A.solve [6, 7, -1] = .ok [15 / 29, 57 / 29, 17 / 29] ∧
      Banded.Solution A.entry [6, 7, -1] [15 / 29, 57 / 29, 17 / 29] ∧
      (∀ ys, Banded.Solution A.entry [6, 7, -1] ys → ys = [15 / 29, 57 / 29, 17 / 29]) ∧
      ∀ rhs, rhs.length = 3 → B.solve rhs = .error (.zeroPivot 2) := by
  intro A B
  have hA : ofBands [1, -2] [4, 3, 5] [2, 1] = .ok A := rfl
  have hB : ofBands [1, -2] [4, 3, -4 / 5] [2, 1] = .ok B := rfl
  have hx : A.solve [6, 7, -1] = .ok [15 / 29, 57 / 29, 17 / 29] := by decide +kernel
  obtain ⟨hsolution, hunique⟩ := (solve_unique hA).1 [6, 7, -1] _ rfl hx
  refine ⟨hA, hB, hx, hsolution, hunique, ?_⟩
  rcases (solve_unique hB).2 with ⟨-, hok⟩ | ⟨row, -, -, -, herror⟩
  · obtain ⟨xs, hxs⟩ := hok [1, 1, 1] rfl
    have hstop : B.solve [1, 1, 1] = .error (.zeroPivot 2) := by decide +kernel
    rw [hxs] at hstop
    cases hstop
  · have hstop : B.solve [1, 1, 1] = .error (.zeroPivot 2) := by decide +kernel
    rw [herror [1, 1, 1] rfl] at hstop
    cases hstop
    exact herror

end Tridiagonal
end LifetimeEfficiency
