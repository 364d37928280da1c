import LifetimeEfficiency.Scalar
import Mathlib.Algebra.Order.Field.Basic
import Mathlib.Data.List.GetD
/-!
# Numbers that may be undefined

Exact numbers and one undefined value, which takes part in no comparison and spreads through every operation. Only the larger and the
smaller of two numbers ignore it. Nothing is infinite: a quotient by zero is undefined.
-/
namespace LifetimeEfficiency

inductive Undefinable (K : Type)
  | number (x : K)
  | undefined

namespace Undefinable

section Operations

variable {K : Type}

def map (f : K → K) : Undefinable K → Undefinable K
  | number x => number (f x)
  | undefined => undefined

def combine (f : K → K → Undefinable K) : Undefinable K → Undefinable K → Undefinable K
  | number x, number y => f x y
  | _, _ => undefined

def choose (f : K → K → K) : Undefinable K → Undefinable K → Undefinable K
  | number x, number y => number (f x y)
  | undefined, y => y
  | x, undefined => x

def Compares (r : K → K → Prop) : Undefinable K → Undefinable K → Prop
  | number x, number y => r x y
  | _, _ => False

instance {r : K → K → Prop} [DecidableRel r] : DecidableRel (Compares r)
  | number x, number y => inferInstanceAs (Decidable (r x y))
  | number _, undefined => inferInstanceAs (Decidable False)
  | undefined, _ => inferInstanceAs (Decidable False)

def isNumber : Undefinable K → Bool
  | number _ => true
  | undefined => false

end Operations

variable {K : Type} [Field K] [LinearOrder K]

instance undefinableScalar : Scalar (Undefinable K) where
  add := combine fun x y => number (x + y)
  sub := combine fun x y => number (x - y)
  mul := combine fun x y => number (x * y)
  div := combine fun x y => if y = 0 then undefined else number (x / y)
  neg := map fun x => -x
  lt := Compares (· < ·)
  le := Compares (· ≤ ·)
  beq x y := decide (Compares (· = ·) x y)
  max := choose max
  min := choose min
  ofNat n := number n
  decidableLT := inferInstanceAs (DecidableRel (Compares (· < ·)))
  decidableLE := inferInstanceAs (DecidableRel (Compares (· ≤ ·)))
  abs := map fun x => |x|
  isFinite := isNumber
  mulAdd x y z := combine (fun xy z => number (xy + z)) (combine (fun x y => number (x * y)) x y) z

variable {x y : Undefinable K}

theorem zero_eq : (0 : Undefinable K) = number 0 := congrArg number Nat.cast_zero

theorem one_eq : (1 : Undefinable K) = number 1 := congrArg number Nat.cast_one

theorem numeral_eq (n : Nat) [n.AtLeastTwo] : (OfNat.ofNat n : Undefinable K) = number (OfNat.ofNat n) :=
  congrArg number Nat.cast_ofNat

@[simp] theorem zero_ne_undefined : (0 : Undefinable K) ≠ undefined := by
  rw [zero_eq]
  nofun

@[simp] theorem add_eq_undefined_iff : x + y = undefined ↔ x = undefined ∨ y = undefined := by
  cases x <;> cases y <;> simp [HAdd.hAdd, Add.add, combine]

@[simp] theorem sub_eq_undefined_iff : x - y = undefined ↔ x = undefined ∨ y = undefined := by
  cases x <;> cases y <;> simp [HSub.hSub, Sub.sub, combine]

@[simp] theorem mul_eq_undefined_iff : x * y = undefined ↔ x = undefined ∨ y = undefined := by
  cases x <;> cases y <;> simp [HMul.hMul, Mul.mul, combine]

@[simp] theorem div_eq_undefined_iff :
    x / y = undefined ↔ x = undefined ∨ y = undefined ∨ y = 0 := by
  rw [zero_eq]
  cases x <;> cases y <;> simp [HDiv.hDiv, Div.div, combine]

@[simp] theorem neg_eq_undefined_iff : -x = undefined ↔ x = undefined := by
  cases x <;> simp [Neg.neg, map]

@[simp] theorem max_eq_undefined_iff : max x y = undefined ↔ x = undefined ∧ y = undefined := by
  cases x <;> cases y <;> simp [Max.max, choose]

@[simp] theorem min_eq_undefined_iff : min x y = undefined ↔ x = undefined ∧ y = undefined := by
  cases x <;> cases y <;> simp [Min.min, choose]

@[simp] theorem ofNat_ne_undefined (n : Nat) : @OfNat.ofNat (Undefinable K) n (Scalar.instOfNat n) ≠ undefined := nofun

@[simp] theorem natCast_ne_undefined (n : Nat) : (Scalar.ofNat n : Undefinable K) ≠ undefined := nofun

omit [Field K] [LinearOrder K] in
theorem exists_number (h : x ≠ undefined) : ∃ a, x = number a := by
  cases x with
  | number a => exact ⟨a, rfl⟩
  | undefined => exact absurd rfl h

theorem ne_undefined_of_isFinite (h : Scalar.isFinite x = true) : x ≠ undefined := by
  rintro rfl
  cases h

theorem isFinite_undefined : Scalar.isFinite (undefined : Undefinable K) = false := rfl

theorem beq_zero : ((0 : Undefinable K) == 0) = true := by
  rw [zero_eq]
  exact decide_eq_true (rfl : (0 : K) = 0)

theorem le_of_lt (h : x < y) : x ≤ y := by
  cases x with
  | undefined => exact h
  | number a =>
    cases y with
    | undefined => exact h
    | number b => exact LT.lt.le (show a < b from h)

theorem beq_zero_of_pos (h : 0 < x) : (x == 0) = false := by
  rw [zero_eq] at h ⊢
  cases x with
  | undefined => exact h.elim
  | number a => exact decide_eq_false (LT.lt.ne' (show 0 < a from h))

section Sums

theorem foldl_add_ne_undefined {xs : List (Undefinable K)} (hx : x ≠ undefined) (h : ∀ y ∈ xs, y ≠ undefined) :
    xs.foldl (· + ·) x ≠ undefined := by
  induction xs generalizing x with
  | nil => exact hx
  | cons y xs ih =>
    obtain ⟨hy, hxs⟩ := List.forall_mem_cons.mp h
    exact ih (by simp [hx, hy]) hxs

theorem sum_ne_undefined {xs : List (Undefinable K)} (h : ∀ y ∈ xs, y ≠ undefined) : Scalar.sum xs ≠ undefined :=
  foldl_add_ne_undefined zero_ne_undefined h

theorem getD_ne_undefined {xs : List (Undefinable K)} (h : ∀ y ∈ xs, y ≠ undefined) (i : Nat) :
    xs.getD i 0 ≠ undefined := by
  rcases Nat.lt_or_ge i xs.length with hlt | hge
  · rw [List.getD_eq_getElem _ _ hlt]
    exact h _ (List.getElem_mem hlt)
  · rw [List.getD_eq_default _ _ hge]
    exact zero_ne_undefined

theorem power_ne_undefined (hx : x ≠ undefined) (n : Nat) : Scalar.power x n ≠ undefined := by
  induction n with
  | zero => exact ofNat_ne_undefined 1
  | succ n ih => simp [Scalar.power, ih, hx]

end Sums

section Numerals

variable [IsStrictOrderedRing K]

theorem natCast_ne_zero {n : Nat} (hn : n ≠ 0) : (Scalar.ofNat n : Undefinable K) ≠ 0 := by
  rw [zero_eq]
  exact fun h => Nat.cast_ne_zero.mpr hn (Undefinable.number.inj h)

@[simp] theorem half_ne_undefined : (Scalar.half : Undefinable K) ≠ undefined := by
  have htwo : (2 : Undefinable K) ≠ 0 := natCast_ne_zero two_ne_zero
  simp [Scalar.half, htwo]

end Numerals

/-! Between numbers everything is as in the field. -/

section Numbers

variable {a b : K}

@[simp] theorem number_add : (number a + number b : Undefinable K) = number (a + b) := rfl

@[simp] theorem number_sub : (number a - number b : Undefinable K) = number (a - b) := rfl

@[simp] theorem number_mul : (number a * number b : Undefinable K) = number (a * b) := rfl

@[simp] theorem number_neg : (-number a : Undefinable K) = number (-a) := rfl

theorem number_div (hb : b ≠ 0) : (number a / number b : Undefinable K) = number (a / b) := if_neg hb

@[simp] theorem number_eq_zero_iff : number a = 0 ↔ a = 0 := by
  rw [zero_eq, Undefinable.number.injEq]

theorem mul_eq_zero_iff (hx : x ≠ undefined) (hy : y ≠ undefined) : x * y = 0 ↔ x = 0 ∨ y = 0 := by
  obtain ⟨a, rfl⟩ := exists_number hx
  obtain ⟨b, rfl⟩ := exists_number hy
  simp

theorem div_eq_zero_iff (hx : x ≠ undefined) (hy : y ≠ undefined) (hne : y ≠ 0) : x / y = 0 ↔ x = 0 := by
  obtain ⟨a, rfl⟩ := exists_number hx
  obtain ⟨b, rfl⟩ := exists_number hy
  have hb : b ≠ 0 := mt number_eq_zero_iff.mpr hne
  simp [number_div hb, hb]

theorem power_ne_zero (hx : x ≠ undefined ∧ x ≠ 0) (n : Nat) : Scalar.power x n ≠ 0 := by
  induction n with
  | zero =>
    rw [Scalar.power, one_eq]
    exact mt number_eq_zero_iff.mp one_ne_zero
  | succ n ih =>
    rw [Scalar.power, Ne, mul_eq_zero_iff (power_ne_undefined hx.1 n) hx.1]
    exact not_or.mpr ⟨ih, hx.2⟩

@[simp] theorem number_beq_zero_iff : (number a == 0) = true ↔ a = 0 := by
  rw [zero_eq]
  exact decide_eq_true_iff

theorem beq_zero_iff (hx : x ≠ undefined) : (x == 0) = true ↔ x = 0 := by
  obtain ⟨a, rfl⟩ := exists_number hx
  rw [number_beq_zero_iff, number_eq_zero_iff]

end Numbers

/- Equality of the two sorts of value, which is not the comparison of scalars. -/
deriving instance DecidableEq for Undefinable

end Undefinable
end LifetimeEfficiency
