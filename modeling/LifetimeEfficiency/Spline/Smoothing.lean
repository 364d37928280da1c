import LifetimeEfficiency.Banded.Pentadiagonal
import LifetimeEfficiency.Spline.Interpolation
/-!
# Smoothing

Values at the knots are moved to trade distance from the data against curvature. Half the second derivatives of the
smoothed curve solve a pentadiagonal system in the second differences of the data, and correct the values.
-/
namespace LifetimeEfficiency.Spline

variable {K : Type} [Scalar K]

/-- The weight of curvature against distance that belongs to a smoothing parameter. -/
def curvatureWeight (smoothing : K) : K := 2 * smoothing / (3 * (1 - smoothing))

def variance (errors : List K) (i : Nat) : K := errors.getD i 0 * errors.getD i 0

def secondDifferences (k : Knots K) (values : List K) : List K :=
  (List.range (k.size - 2)).map fun i : Nat =>
    k.r i * (values.getD i 0 - values.getD (i + 1) 0) -
      k.r (i + 1) * (values.getD (i + 1) 0 - values.getD (i + 2) 0)

def smoothingDiagonal (k : Knots K) (var : Nat → K) (mu : K) (i : Nat) : K :=
  k.p (i + 1) + mu * (k.r i * k.r i * var i + k.f (i + 1) * k.f (i + 1) * var (i + 1) +
    k.r (i + 1) * k.r (i + 1) * var (i + 2))

def smoothingFirst (k : Knots K) (var : Nat → K) (mu : K) (i : Nat) : K :=
  k.width (i + 1) + mu * (k.f (i + 1) * k.r (i + 1) * var (i + 1) +
    k.r (i + 1) * k.f (i + 2) * var (i + 2))

def smoothingSecond (k : Knots K) (var : Nat → K) (mu : K) (i : Nat) : K :=
  mu * k.r (i + 1) * k.r (i + 2) * var (i + 2)

def smoothingSystem (k : Knots K) (errors : List K) (mu : K) :
    Except BandedError (Pentadiagonal K) :=
  let m := k.size - 2
  let var := variance errors
  Pentadiagonal.ofBands
    ((List.range m).map (smoothingDiagonal k var mu))
    ((List.range (m - 1)).map (smoothingFirst k var mu))
    ((List.range (m - 2)).map (smoothingSecond k var mu))

/-- How the curvatures `b` move value `i`, before its variance and the weight. -/
def correction (k : Knots K) (b : List K) (i : Nat) : K :=
  let m := k.size - 2
  (if i < m then k.r i * b.getD i 0 else 0) +
    (if 1 ≤ i ∧ i - 1 < m then k.f i * b.getD (i - 1) 0 else 0) +
    (if 2 ≤ i ∧ i - 2 < m then k.r (i - 1 : Int) * b.getD (i - 2) 0 else 0)

def corrected (k : Knots K) (values errors : List K) (mu : K) (b : List K) : List K :=
  (List.range values.length).map fun i =>
    values.getD i 0 - mu * variance errors i * correction k b i

def isSmoothing (smoothing : K) : Bool := 0 ≤ smoothing && smoothing < 1

/-- Smoothed values; without smoothing, or with too few knots for any curvature, the values as given. -/
def smooth (k : Knots K) (values errors : List K) (smoothing : K) :
    Except (SplineError K) (List K) := do
  if !isSmoothing smoothing then throw (.smoothingOutOfRange smoothing)
  checkLength "sampled values" values k.size
  checkLength "sample errors" errors k.size
  if k.size < 3 || smoothing == 0 then return values
  let mu := curvatureWeight smoothing
  let b ← SplineError.ofBanded do
    let system ← smoothingSystem k errors mu
    system.solve (secondDifferences k values)
  return corrected k values errors mu b

/-- The coefficients of the spline through the smoothed values. -/
def interpolateSmoothed (k : Knots K) (values errors : List K) (smoothing : K)
    (ends : EndConditions K) : Except (SplineError K) (List K) := do
  let smoothed ← smooth k values errors smoothing
  interpolate k smoothed ends

end LifetimeEfficiency.Spline
