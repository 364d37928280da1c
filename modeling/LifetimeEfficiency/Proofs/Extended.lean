import LifetimeEfficiency.Proofs.Ordered
/-!
# Numbers with infinities

Exact numbers, an infinity on either side of them, and one undefined value, which every comparison fails for. A number that is compared and
found on the inner side of another one is finite. There is one zero without a sign, so a quotient by it is undefined.
-/
namespace LifetimeEfficiency

inductive Extended (K : Type)
  | number (x : K)
  | above
  | below
  | undefined

namespace Extended

section Operations

variable {K : Type} [Field K] [LinearOrder K]

def direction : Extended K → K
  | number x => x
  | above => 1
  | below => -1
  | undefined => 0

def infinity (direction : K) : Extended K :=
  if 0 < direction then above else if direction < 0 then below else undefined

def add : Extended K → Extended K → Extended K
  | number x, number y => number (x + y)
  | above, number _ | number _, above | above, above => above
  | below, number _ | number _, below | below, below => below
  | _, _ => undefined

def neg : Extended K → Extended K
  | number x => number (-x)
  | above => below
  | below => above
  | undefined => undefined

def mul : Extended K → Extended K → Extended K
  | number x, number y => number (x * y)
  | x, y => infinity (x.direction * y.direction)

def div : Extended K → Extended K → Extended K
  | number x, number y => if y = 0 then undefined else number (x / y)
  | number _, above | number _, below => number 0
  | x, number y => infinity (x.direction * y)
  | _, _ => undefined

def less : Extended K → Extended K → Bool
  | number x, number y => x < y
  | below, number _ | number _, above | below, above => true
  | _, _ => false

/-- Equality as a comparison: an undefined value is not even equal to itself. -/
def same : Extended K → Extended K → Bool
  | number x, number y => x = y
  | above, above | below, below => true
  | _, _ => false

/-- The larger of two numbers; an undefined one is left out. -/
def larger : Extended K → Extended K → Extended K
  | undefined, y => y
  | x, undefined => x
  | x, y => if less x y then y else x

def smaller : Extended K → Extended K → Extended K
  | undefined, y => y
  | x, undefined => x
  | x, y => if less x y then x else y

def isNumber : Extended K → Bool
  | number _ => true
  | _ => false

def magnitude : Extended K → Extended K
  | number x => number |x|
  | above | below => above
  | undefined => undefined

instance extendedScalar : Scalar (Extended K) where
  add := add
  sub x y := add x (neg y)
  mul := mul
  div := div
  neg := neg
  lt x y := less x y = true
  le x y := (less x y || same x y) = true
  beq := same
  max := larger
  min := smaller
  ofNat n := number n
  decidableLT _ _ := inferInstanceAs (Decidable (_ = true))
  decidableLE _ _ := inferInstanceAs (Decidable (_ = true))
  abs := magnitude
  isFinite := isNumber
  mulAdd x y z := add (mul x y) z

end Operations

variable {K : Type} [Field K] [LinearOrder K]

/-! Between numbers everything is as in the field. -/

section Numbers

variable {a b : K}

theorem zero_eq : (0 : Extended K) = number 0 := congrArg number Nat.cast_zero

theorem one_eq : (1 : Extended K) = number 1 := congrArg number Nat.cast_one

@[simp] theorem number_add : (number a + number b : Extended K) = number (a + b) := rfl

@[simp] theorem number_sub : (number a - number b : Extended K) = number (a - b) :=
  congrArg number (sub_eq_add_neg a b).symm

@[simp] theorem number_mul : (number a * number b : Extended K) = number (a * b) := rfl

@[simp] theorem number_neg : (-number a : Extended K) = number (-a) := rfl

theorem number_div (hb : b ≠ 0) : (number a / number b : Extended K) = number (a / b) := if_neg hb

@[simp] theorem number_lt : number a < number b ↔ a < b := decide_eq_true_iff

@[simp] theorem number_le : number a ≤ number b ↔ a ≤ b := by
  change (decide (a < b) || decide (a = b)) = true ↔ a ≤ b
  rw [Bool.or_eq_true, decide_eq_true_iff, decide_eq_true_iff, le_iff_lt_or_eq]

@[simp] theorem number_beq : (number a == number b) = (a == b) :=
  (beq_eq_decide a b).symm

@[simp] theorem isFinite_number : Scalar.isFinite (number a) = true := rfl

@[simp] theorem max_number : max (number a) (number b) = number (max a b) := by
  change (if decide (a < b) = true then number b else number a) = number (max a b)
  rw [max_def_lt, apply_ite number]
  exact if_congr decide_eq_true_iff rfl rfl

@[simp] theorem min_number : min (number a) (number b) = number (min a b) := by
  change (if decide (a < b) = true then number a else number b) = number (min a b)
  rw [min_def_lt, apply_ite number]
  exact if_congr decide_eq_true_iff rfl rfl

end Numbers

section Comparisons

variable {x y z : Extended K} {a : K}

theorem isFinite_iff : Scalar.isFinite x = true ↔ ∃ a, x = number a := by
  cases x with
  | number a => exact ⟨fun _ => ⟨a, rfl⟩, fun _ => rfl⟩
  | above | below | undefined => exact ⟨nofun, nofun⟩

@[simp] theorem below_lt_number : below < number a := rfl

@[simp] theorem number_lt_above : number a < above := rfl

@[simp] theorem below_lt_above : (below : Extended K) < above := rfl

@[simp] theorem not_lt_below : ¬ x < below := by
  cases x <;> exact nofun

@[simp] theorem not_above_lt : ¬ above < x := by
  cases x <;> exact nofun

@[simp] theorem not_lt_undefined : ¬ x < undefined := by
  cases x <;> exact nofun

@[simp] theorem not_undefined_lt : ¬ undefined < x := by
  cases x <;> exact nofun

theorem exists_number_of_lt (h : x < y) (hx : ¬ x < number a) : ∃ b, x = number b ∧ a ≤ b := by
  cases x with
  | number b => exact ⟨b, rfl, not_lt.mp fun hlt => hx (number_lt.mpr hlt)⟩
  | above => exact absurd h not_above_lt
  | below => exact absurd below_lt_number hx
  | undefined => exact absurd h not_undefined_lt

theorem exists_number_of_gt (h : x < y) (hy : ¬ number a < y) : ∃ b, y = number b ∧ b ≤ a := by
  cases y with
  | number b => exact ⟨b, rfl, not_lt.mp fun hlt => hy (number_lt.mpr hlt)⟩
  | above => exact absurd number_lt_above hy
  | below => exact absurd h not_lt_below
  | undefined => exact absurd h not_lt_undefined

theorem lt_trans (hxy : x < y) (hyz : y < z) : x < z := by
  cases y with
  | number b =>
    cases x with
    | number a =>
      cases z with
      | number c => exact number_lt.mpr ((number_lt.mp hxy).trans (number_lt.mp hyz))
      | above => exact number_lt_above
      | below => exact absurd hyz not_lt_below
      | undefined => exact absurd hyz not_lt_undefined
    | below =>
      cases z with
      | number c => exact below_lt_number
      | above => exact below_lt_above
      | below => exact absurd hyz not_lt_below
      | undefined => exact absurd hyz not_lt_undefined
    | above => exact absurd hxy not_above_lt
    | undefined => exact absurd hxy not_undefined_lt
  | above => exact absurd hyz not_above_lt
  | below => exact absurd hxy not_lt_below
  | undefined => exact absurd hxy not_lt_undefined

instance extended_ordered : Scalar.Ordered (Extended K) where
  lt_trans := lt_trans
  lt_of_not_le hx hy h := by
    obtain ⟨a, rfl⟩ := isFinite_iff.mp hx
    obtain ⟨b, rfl⟩ := isFinite_iff.mp hy
    exact number_lt.mpr (not_le.mp fun hle => h (number_le.mpr hle))

omit [Field K] in
theorem same_iff : same x y = true ↔ x = y ∧ x ≠ undefined := by
  cases x <;> cases y <;> simp [same]

theorem le_iff : x ≤ y ↔ x < y ∨ x = y ∧ x ≠ undefined := by
  change (less x y || same x y) = true ↔ less x y = true ∨ x = y ∧ x ≠ undefined
  rw [Bool.or_eq_true, same_iff]

@[simp] theorem not_lt_self : ¬ x < x := by
  cases x with
  | number a => simp
  | above | below | undefined => simp

theorem le_self_iff : x ≤ x ↔ x ≠ undefined := by
  simp [le_iff]

theorem defined_of_lt (h : x < y) : x ≠ undefined ∧ y ≠ undefined := by
  constructor
  · rintro rfl
    exact not_undefined_lt h
  · rintro rfl
    exact not_lt_undefined h

theorem trichotomy (hx : x ≠ undefined) (hy : y ≠ undefined) : x < y ∨ x = y ∨ y < x := by
  cases x with
  | number a =>
    cases y with
    | number b => simpa using lt_trichotomy a b
    | above | below => simp
    | undefined => exact absurd rfl hy
  | above | below => cases y <;> simp_all
  | undefined => exact absurd rfl hx

instance extended_total : Scalar.Total (Extended K) where
  le_self_of_isFinite h := by
    obtain ⟨a, rfl⟩ := isFinite_iff.mp h
    exact le_self_iff.mpr nofun
  defined_of_le h := by
    rw [le_self_iff, le_self_iff]
    rcases le_iff.mp h with hlt | ⟨rfl, hx⟩
    · exact defined_of_lt hlt
    · exact ⟨hx, hx⟩
  le_trans hab hbc := by
    rcases le_iff.mp hab with hlt | ⟨rfl, -⟩
    · rcases le_iff.mp hbc with hlt' | ⟨rfl, -⟩
      · exact le_iff.mpr (.inl (lt_trans hlt hlt'))
      · exact hab
    · exact hbc
  le_total ha hb := by
    rw [le_self_iff] at ha hb
    rcases trichotomy ha hb with hlt | rfl | hlt
    · exact .inl (le_iff.mpr (.inl hlt))
    · exact .inl (le_self_iff.mpr ha)
    · exact .inr (le_iff.mpr (.inl hlt))
  lt_iff := by
    intro a b
    constructor
    · intro hlt
      refine ⟨le_iff.mpr (.inl hlt), fun hle => ?_⟩
      rcases le_iff.mp hle with hlt' | ⟨rfl, -⟩
      · exact not_lt_self (lt_trans hlt hlt')
      · exact not_lt_self hlt
    · rintro ⟨hle, hnot⟩
      rcases le_iff.mp hle with hlt | ⟨rfl, -⟩
      · exact hlt
      · exact absurd hle hnot

end Comparisons

/-! Signs. An infinity has one, an undefined value has none. -/

section Signs

variable {x y : Extended K} {a : K}

@[simp] theorem zero_lt_number : 0 < number a ↔ 0 < a := by
  rw [zero_eq, number_lt]

theorem zero_lt_above : (0 : Extended K) < above := by
  rw [zero_eq]
  exact number_lt_above

theorem zero_lt_infinity (h : 0 < a) : 0 < infinity a := by
  rw [infinity, if_pos h]
  exact zero_lt_above

theorem beq_zero_of_pos (h : 0 < x) : (x == 0) = false := by
  cases x with
  | number a =>
    rw [zero_lt_number] at h
    rw [zero_eq, number_beq]
    exact beq_false_of_ne h.ne'
  | above | below | undefined => rfl

variable [IsStrictOrderedRing K]

theorem zero_lt_sub (h : y < x) : 0 < x - y := by
  cases x with
  | number a =>
    cases y with
    | number b =>
      rw [number_sub, zero_lt_number]
      exact sub_pos.mpr (number_lt.mp h)
    | below => exact zero_lt_above
    | above => exact absurd h not_above_lt
    | undefined => exact absurd h not_undefined_lt
  | above =>
    cases y with
    | number _ | below => exact zero_lt_above
    | above => exact absurd h not_above_lt
    | undefined => exact absurd h not_undefined_lt
  | below => exact absurd h not_lt_below
  | undefined => exact absurd h not_lt_undefined

theorem zero_lt_mul_self (h : 0 < x) : 0 < x * x := by
  cases x with
  | number a =>
    rw [zero_lt_number] at h
    rw [number_mul, zero_lt_number]
    exact mul_pos h h
  | above => exact zero_lt_infinity (mul_pos one_pos one_pos)
  | below => exact absurd h not_lt_below
  | undefined => exact absurd h not_lt_undefined

theorem zero_lt_div (h : 0 < x) (ha : 0 < a) : 0 < x / number a := by
  cases x with
  | number b =>
    rw [zero_lt_number] at h
    rw [number_div ha.ne', zero_lt_number]
    exact div_pos h ha
  | above => exact zero_lt_infinity (mul_pos one_pos ha)
  | below => exact absurd h not_lt_below
  | undefined => exact absurd h not_lt_undefined

end Signs

end Extended
end LifetimeEfficiency
