import LifetimeEfficiency.Proofs.Banded.Pentadiagonal
import LifetimeEfficiency.Proofs.Banded.Pivots
/-!
# Columns of a pentadiagonal system

The columns of `L D Lᵀ` that elimination computes as long as it refuses no pivot, whatever the numbers are. It returns all of them, or stops
at the first one whose pivot is refused.
-/
namespace LifetimeEfficiency

namespace Pentadiagonal

variable {K : Type} [Scalar K]

def Row.column (r : Row K) (s2 s1 : Step K) : Step K :=
  let d := r.diag - s1.l1 * s1.l1 * s1.d - s2.l2 * s2.l2 * s2.d
  ⟨d, (r.first - s1.l2 * s1.l1 * s1.d) / d, r.second / d⟩

/-- The columns in order, behind two empty ones. -/
def padded (A : Pentadiagonal K) : Nat → Step K
  | 0 => Step.zero
  | 1 => Step.zero
  | i + 2 => (A.row i).column (A.padded i) (A.padded (i + 1))

def step (A : Pentadiagonal K) (i : Nat) : Step K := A.padded (i + 2)

def pivot (A : Pentadiagonal K) (i : Nat) : K := (A.step i).d

def Accepts (A : Pentadiagonal K) (i : Nat) : Prop :=
  Banded.checkPivot (A.pivot i) (A.row i).scale i = .ok (A.pivot i)

theorem step_eq (A : Pentadiagonal K) (i : Nat) :
    A.step i = (A.row i).column (A.padded i) (A.padded (i + 1)) := rfl

theorem length_rows (A : Pentadiagonal K) : A.rows.length = A.dimension := by
  simp [rows]

theorem rows_drop (A : Pentadiagonal K) {i : Nat} (hi : i < A.dimension) :
    A.rows.drop i = A.row i :: A.rows.drop (i + 1) := by
  have hlt : i < A.rows.length := A.length_rows.symm ▸ hi
  rw [List.drop_eq_getElem_cons hlt]
  simp [rows]

/-! One row of the elimination, which has come so far with the two columns before. -/

theorem eliminate_of_accepts {A : Pentadiagonal K} {i : Nat} (hi : i < A.dimension) (h : A.Accepts i) :
    eliminate i (A.padded i) (A.padded (i + 1)) (A.rows.drop i) =
      (eliminate (i + 1) (A.padded (i + 1)) (A.padded (i + 2)) (A.rows.drop (i + 1))).map (A.step i :: ·) := by
  rw [A.rows_drop hi, eliminate]
  show (Banded.checkPivot (A.pivot i) (A.row i).scale i >>= _) = _
  rw [show Banded.checkPivot (A.pivot i) (A.row i).scale i = .ok (A.pivot i) from h]
  rfl

theorem eliminate_of_not_accepts {A : Pentadiagonal K} {i : Nat} (hi : i < A.dimension)
    (h : ¬ A.Accepts i) :
    eliminate i (A.padded i) (A.padded (i + 1)) (A.rows.drop i) = .error (.zeroPivot i) := by
  rw [A.rows_drop hi, eliminate]
  show (Banded.checkPivot (A.pivot i) (A.row i).scale i >>= _) = _
  rw [(Banded.checkPivot_cases _ _ _).resolve_left h]
  rfl

/-- Elimination keeps the columns of all rows or stops at the first row that is not accepted. -/
theorem factor_cases (A : Pentadiagonal K) :
    (∀ i < A.dimension, A.Accepts i) ∧ A.factor = .ok ((List.range A.dimension).map A.step) ∨
      ∃ i < A.dimension, ¬ A.Accepts i ∧ (∀ j < i, A.Accepts j) ∧ A.factor = .error (.zeroPivot i) := by
  apply Banded.scan_cases fun i => eliminate i (A.padded i) (A.padded (i + 1)) (A.rows.drop i)
  · rw [← A.length_rows, List.drop_length]
    rfl
  · exact fun i hi => eliminate_of_accepts hi
  · exact fun i hi => eliminate_of_not_accepts hi

theorem solve_eq_map {A : Pentadiagonal K} {rhs : List K} (hlen : rhs.length = A.dimension) :
    A.solve rhs = A.factor.map fun steps =>
      backward steps (scaleDown steps (forward 0 0 0 steps rhs)) := by
  rw [solve, Banded.checkRhs, if_pos hlen]
  cases A.factor with
  | error e => rfl
  | ok steps => rfl

theorem solve_cases {A : Pentadiagonal K} {rhs : List K} (hlen : rhs.length = A.dimension) :
    let steps := (List.range A.dimension).map A.step
    (∀ i < A.dimension, A.Accepts i) ∧
        A.solve rhs = .ok (backward steps (scaleDown steps (forward 0 0 0 steps rhs))) ∨
      ∃ i < A.dimension, ¬ A.Accepts i ∧ (∀ j < i, A.Accepts j) ∧
        A.solve rhs = .error (.zeroPivot i) := by
  rw [solve_eq_map hlen]
  rcases A.factor_cases with ⟨haccepts, hok⟩ | ⟨i, hi, hrefused, hbefore, herror⟩
  · left
    rw [hok]
    exact ⟨haccepts, rfl⟩
  · right
    rw [herror]
    exact ⟨i, hi, hrefused, hbefore, rfl⟩

theorem length_eq_of_solve {A : Pentadiagonal K} {rhs xs : List K} (h : A.solve rhs = .ok xs) :
    rhs.length = A.dimension := by
  by_contra hlen
  rw [solve, Banded.checkRhs, if_neg hlen] at h
  cases h

end Pentadiagonal
end LifetimeEfficiency
