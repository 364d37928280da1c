import LifetimeEfficiency.Smearing.Convolution
import LifetimeEfficiency.Spline.Basis
/-!
# Curves

Knots with one coefficient per basis function. Between the knots a curve is the sum of its four active basis
functions; beyond them it goes on as a straight line.
-/
namespace LifetimeEfficiency

structure Curve (K : Type) where
  knots : Knots K
  coefs : List K

namespace Curve

variable {K : Type} [Scalar K]

def ofCoefs (k : Knots K) (coefs : List K) : Except (SplineError K) (Curve K) :=
  if coefs.length = k.size + 2 then .ok ⟨k, coefs⟩
  else .error (.coefficientCount (k.size + 2) coefs.length)

def coef (c : Curve K) (i : Nat) : K := c.coefs.getD i 0

/-- The coefficients of the four basis functions of interval `i`. -/
def active (c : Curve K) (i : Nat) : List K := (List.range 4).map fun slot => c.coef (i + slot)

def valueInside (c : Curve K) (i : Nat) (x : K) : K :=
  Scalar.dot (c.active i) (c.knots.basisValues i x)

def value (c : Curve K) (x : K) : K :=
  let k := c.knots
  match k.locate x with
  | .left =>
    let b := c.coef 0
    b - (x - k.first) * k.r 0 * (b - c.coef 1)
  | .right =>
    let b := c.coef (k.size + 1)
    b + (x - k.last) * k.r (k.size - 2 : Int) * (b - c.coef k.size)
  | .interval i => c.valueInside i x

def basisIntegrals (k : Knots K) (i : Nat) : List K :=
  (k.basisPolynomials i).map fun p => p.integral (k.u i) (k.u (i + 1))

def integral (c : Curve K) : K :=
  Scalar.sum ((List.range c.knots.intervals).map fun i =>
    Scalar.dot (c.active i) (basisIntegrals c.knots i))

def intervalPolynomial (c : Curve K) (i : Nat) : Cubic K :=
  (List.zipWith Cubic.scale (c.knots.basisPolynomials i) (c.active i)).foldl (· + ·) Cubic.zero

def leftSlope (c : Curve K) : K := -c.knots.r 0 * (c.coef 0 - c.coef 1)

def rightSlope (c : Curve K) : K :=
  c.knots.r (c.knots.size - 2 : Int) * (c.coef (c.knots.size + 1) - c.coef c.knots.size)

def line (c : Curve K) (slope anchor : K) : Cubic K :=
  Cubic.linear (c.value anchor - slope * anchor) slope

def leftLine (c : Curve K) : Cubic K := c.line c.leftSlope c.knots.first

def rightLine (c : Curve K) : Cubic K := c.line c.rightSlope c.knots.last

/-- The largest magnitude of a coefficient; no value between the knots is larger. -/
def maxAbs (c : Curve K) : K := Scalar.largest (c.coefs.map Scalar.abs)

def segments (c : Curve K) (lo hi : K) : List (Segment K) :=
  let k := c.knots
  (if lo < k.first then [⟨lo, min hi k.first, c.leftLine⟩] else []) ++
    (List.range k.intervals).map (fun i : Nat =>
      ⟨max lo (k.u i), min hi (k.u (i + 1)), c.intervalPolynomial i⟩) ++
    (if k.last < hi then [⟨max lo k.last, hi, c.rightLine⟩] else [])

end Curve
end LifetimeEfficiency
