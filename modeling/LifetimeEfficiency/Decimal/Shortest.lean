import LifetimeEfficiency.Numeric.Binary64
/-!
# Decimal digits of a double

Reading takes the double nearest to a decimal. Writing takes the fewest digits that read back, and among those the nearest
to the double, where the format says which of two equally near ones; or a given number of digits, rounded once from the exact
value.
-/
namespace LifetimeEfficiency

/-- The number `digits * 10 ^ exponent`. -/
structure Decimal where
  digits : Nat
  exponent : Int
  deriving DecidableEq

namespace Decimal

/-- Beyond these powers of ten a decimal is infinite or zero as a double, whatever its digits. -/
def largestPower : Int := 310

def smallestPower : Int := -400

def toFloat (negative : Bool) (d : Decimal) : Float :=
  let top := d.exponent + (Nat.toDigits 10 d.digits).length
  if d.digits = 0 || top < smallestPower then Binary64.ofRatio negative 0 1
  else if largestPower < top then Binary64.ofRatio negative (Nat.pow 10 largestPower.toNat) 1
  else Binary64.ofRatio negative (d.digits * Nat.pow 10 d.exponent.toNat) (Nat.pow 10 (-d.exponent).toNat)

/-- The largest `e` with `10 ^ e ≤ n / d`, for positive `n` and `d`. -/
def floorLog10 (n d : Nat) : Int :=
  if d ≤ n then (Nat.toDigits 10 (n / d)).length - 1
  else -((Nat.toDigits 10 ((d + n - 1) / n - 1)).length : Int)

def rescale (n d : Nat) (k : Int) : Nat × Nat := (n * Nat.pow 10 (-k).toNat, d * Nat.pow 10 k.toNat)

/-- The decimal of `count` significant digits nearest to `n / d`; a half goes to the even one. -/
def ofRatio (count n d : Nat) : Decimal :=
  if n = 0 then ⟨0, 0⟩
  else
    let k := floorLog10 n d + 1 - count
    let (n', d') := rescale n d k
    ⟨Binary64.roundDiv n' d', k⟩

/-- The numbers that read back as one double, in units of a common denominator. -/
structure Interval where
  low : Nat
  value : Nat
  high : Nat
  unit : Nat
  closed : Bool

/-- The interval around a positive double; below a power of two the neighbour is only half as far away. -/
def Interval.ofFloat (x : Float) : Interval :=
  let (m, e) := Binary64.magnitude x
  let below := if m = Nat.pow 2 52 && -1074 < e then 1 else 2
  let factor := Nat.pow 2 (e - 2).toNat
  ⟨(4 * m - below) * factor, 4 * m * factor, (4 * m + 2) * factor, Nat.pow 2 (2 - e).toNat, m % 2 == 0⟩

def Interval.contains (i : Interval) (d : Decimal) : Bool :=
  let scaled := d.digits * Nat.pow 10 d.exponent.toNat * i.unit
  let power := Nat.pow 10 (-d.exponent).toNat
  if i.closed then i.low * power ≤ scaled && scaled ≤ i.high * power
  else i.low * power < scaled && scaled < i.high * power

/-- The neighbour that a number midway between two decimals goes to. -/
inductive Tie where
  | up
  | even
  deriving DecidableEq

def Tie.takesUpper (tie : Tie) (n d : Nat) : Bool :=
  d < 2 * (n % d) || (2 * (n % d) == d && (tie == .up || n / d % 2 == 1))

/-- The neighbours of the value on the grid `10 ^ k`, the nearer one first. -/
def Interval.neighbours (tie : Tie) (i : Interval) (k : Int) : Decimal × Decimal :=
  let (n, d) := rescale i.value i.unit k
  let below : Decimal := ⟨n / d, k⟩
  let above : Decimal := ⟨n / d + 1, k⟩
  if tie.takesUpper n d then (above, below) else (below, above)

def Interval.nearest? (tie : Tie) (i : Interval) (k : Int) : Option Decimal :=
  let (near, far) := i.neighbours tie k
  if i.contains near then some near else if i.contains far then some far else none

/-- Tries one more digit at a time; the nearer neighbour with seventeen digits always reads back. -/
def shortestFrom (tie : Tie) (i : Interval) (top : Int) : Nat → Nat → Decimal
  | 0, count => (i.neighbours tie (top + 1 - count)).1
  | fuel + 1, count =>
    match i.nearest? tie (top + 1 - count) with
    | some d => d
    | none => shortestFrom tie i top fuel (count + 1)

def shortest (tie : Tie) (x : Float) : Decimal :=
  let i := Interval.ofFloat x
  if i.value = 0 then ⟨0, 0⟩ else shortestFrom tie i (floorLog10 i.value i.unit) 16 1

/-- A finite double to a number of significant digits. -/
def significant (count : Nat) (x : Float) : Decimal :=
  let (n, d) := Binary64.ratio x
  ofRatio count n d

end Decimal
end LifetimeEfficiency
