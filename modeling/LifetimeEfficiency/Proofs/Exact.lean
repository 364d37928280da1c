import LifetimeEfficiency.Scalar
import Mathlib.Algebra.BigOperators.Group.List.Basic
import Mathlib.Algebra.Order.Field.Basic
import Mathlib.Data.List.Fold
import Mathlib.Data.List.GetD
import Mathlib.Data.List.MinMax
import Mathlib.Tactic.FieldSimp
import Mathlib.Tactic.Linarith
import Mathlib.Tactic.Ring
/-!
# Exact arithmetic

An ordered field is a scalar whose operations are never rounded and whose numbers are all finite.
The lemmas below turn the folds of the numerical modules into the sums and powers of the field.
-/
namespace LifetimeEfficiency

instance exactScalar {K : Type} [Field K] [LinearOrder K] : Scalar K where
  ofNat n := n
  decidableLT := inferInstance
  decidableLE := inferInstance
  abs x := |x|
  isFinite _ := true
  mulAdd a b c := a * b + c

/-! A numeral of a field carries a proof that it is no less than two. Under these names it is one proof wherever the numeral is written. -/

instance two_atLeastTwo : Nat.AtLeastTwo 2 := ⟨le_rfl⟩

instance three_atLeastTwo : Nat.AtLeastTwo 3 := ⟨Nat.le_succ 2⟩

namespace Scalar

variable {K : Type} [Field K] [LinearOrder K]

@[simp] theorem exact_zero : @OfNat.ofNat K 0 (instOfNat 0) = 0 := Nat.cast_zero

@[simp] theorem exact_one : @OfNat.ofNat K 1 (instOfNat 1) = 1 := Nat.cast_one

@[simp] theorem exact_ofNat (n : Nat) [n.AtLeastTwo] :
    @OfNat.ofNat K n (instOfNat n) = OfNat.ofNat n := rfl

@[simp] theorem exact_natCast (n : Nat) : (Scalar.ofNat n : K) = n := rfl

@[simp] theorem exact_abs (x : K) : Scalar.abs x = |x| := rfl

@[simp] theorem exact_isFinite (x : K) : isFinite x = true := rfl

@[simp] theorem exact_mulAdd (a b c : K) : mulAdd a b c = a * b + c := rfl

@[simp] theorem exact_half : (half : K) = 1 / 2 := by
  simp [half]

@[simp] theorem within_iff (lo hi x : K) : within lo hi x = true ↔ lo ≤ x ∧ x ≤ hi := by
  simp [within]

theorem sum_eq (xs : List K) : sum xs = xs.sum := by
  rw [sum, exact_zero, List.sum_eq_foldl]

@[simp] theorem power_eq (x : K) (n : Nat) : power x n = x ^ n := by
  induction n with
  | zero => simp [power]
  | succ n ih => rw [power, ih, pow_succ]

theorem largest_eq (xs : List K) : largest xs = xs.foldr max 0 := by
  rw [largest, exact_zero, List.foldl_eq_foldr]

theorem le_largest {xs : List K} {x : K} (hx : x ∈ xs) : x ≤ largest xs := by
  rw [largest_eq]
  exact List.le_max_of_le' 0 hx le_rfl

theorem largest_nonneg (xs : List K) : 0 ≤ largest xs := by
  rw [largest_eq]
  induction xs with
  | nil => exact le_rfl
  | cons x xs ih => exact le_max_of_le_right ih

theorem abs_getD_le_largest [IsStrictOrderedRing K] (xs : List K) (i : Nat) :
    |xs.getD i 0| ≤ largest (xs.map abs) := by
  rcases Nat.lt_or_ge i xs.length with hi | hi
  · rw [List.getD_eq_getElem _ _ hi]
    exact le_largest (List.mem_map_of_mem (List.getElem_mem hi))
  · rw [List.getD_eq_default _ _ hi, abs_zero]
    exact largest_nonneg _

end Scalar
end LifetimeEfficiency
