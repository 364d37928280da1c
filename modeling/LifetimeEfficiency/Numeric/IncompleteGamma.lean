import LifetimeEfficiency.Numeric.LogGamma
/-!
# The incomplete gamma function

The regularised lower incomplete gamma function of positive whole order. Small arguments use a series of positive terms; for
larger ones the complement is a continued fraction. Either stops where a step changes the sum by no more than `1e-15` of it.
-/
namespace LifetimeEfficiency.IncompleteGamma

def tolerance : Float := 1.0e-15

def maxSteps : Nat := 10000

/-- The sum over `n` of `xⁿ / ((a + 1) ⋯ (a + n))`, continued from `term`, the last one in `total`. -/
def series (x : Float) : Nat → Float → Float → Float → Float
  | 0, _, _, total => total
  | steps + 1, a, term, total =>
    let a := a + 1
    let term := term * (x / a)
    let total := total + term
    if term / total ≤ tolerance then total else series x steps a term total

/-- Two successive approximations of a continued fraction, and where its coefficients stand. -/
structure Convergents where
  p1 : Float
  q1 : Float
  p2 : Float
  q2 : Float
  y : Float
  z : Float
  count : Float
  value : Float

def Convergents.start (a x : Float) : Convergents :=
  let y := 1 - a
  let z := x + y + 1
  ⟨1, x, x + 1, z * x, y, z, 0, (x + 1) / (z * x)⟩

/-- Numerators and denominators are scaled down together when they grow large. -/
def Convergents.next (c : Convergents) : Convergents :=
  let y := c.y + 1
  let z := c.z + 2
  let count := c.count + 1
  let p := c.p2 * z - c.p1 * (y * count)
  let q := c.q2 * z - c.q1 * (y * count)
  let r := if 4503599627370496 < p.abs then 2.22044604925031308085e-16 else 1
  ⟨c.p2 * r, c.q2 * r, p * r, q * r, y, z, count, if q == 0 then c.value else p / q⟩

def fraction : Nat → Convergents → Float
  | 0, c => c.value
  | steps + 1, c =>
    let d := c.next
    if d.q2 != 0 && ((c.value - d.value) / d.value).abs ≤ tolerance then d.value else fraction steps d

def negligible : Float := 1.1102230246251565e-15

def leastExponent : Float := -709.78271289338399

def regular (a x : Float) : Float :=
  let exponent := a * Float.log x - x - LogGamma.logGamma a
  if exponent < leastExponent then if a < x then 1 else 0
  else if x ≤ 1 || x ≤ a then Float.exp exponent * series x maxSteps a 1 1 / a
  else 1 - Float.exp exponent * fraction maxSteps (.start a x)

/-- There is no value for an argument that is not positive or not finite; an undefined one is passed on. -/
def lower? (a : Nat) (x : Float) : Option Float :=
  if x.isNaN then some x
  else if x ≤ 0 || x.isInf then none
  else if x ≤ negligible then some 0
  else some (regular a.toFloat x)

end LifetimeEfficiency.IncompleteGamma
