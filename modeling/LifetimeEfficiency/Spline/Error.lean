import LifetimeEfficiency.Banded.Basic
/-!
# Spline errors

Every reason for which knots, samples, coefficients or a histogram are refused. Numbers inside a message are
written by a function that the caller gives.
-/
namespace LifetimeEfficiency

inductive BinFault
  | edges
  | outsideKnots
  | nonPositiveError
  deriving DecidableEq

def BinFault.reason : BinFault → String
  | .edges => "edges are not increasing"
  | .outsideKnots => "bin extends beyond the knots"
  | .nonPositiveError => "error is not positive"

inductive SplineError (K : Type)
  | tooFewKnots (found : Nat)
  | nonFiniteKnot (index : Nat)
  | nonIncreasingKnots (index : Nat) (previous value : K)
  | coefficientCount (expected found : Nat)
  | length (what : String) (expected found : Nat)
  | smoothingOutOfRange (smoothing : K)
  | degenerateGeometry (interval : Nat)
  | invalidDecayRate (rate : K)
  | invalidBin (bin : Nat) (fault : BinFault)
  | singularNormalEquations
  | linear (error : BandedError)
  deriving DecidableEq

def SplineError.message {K : Type} (text : K → String) : SplineError K → String
  | .tooFewKnots found => s!"a knot vector needs at least two knots, got {found}"
  | .nonFiniteKnot index => s!"knot {index} is not finite"
  | .nonIncreasingKnots index previous value =>
    s!"knots must be strictly increasing, but knot {index} ({text value}) follows {text previous}"
  | .coefficientCount expected found => s!"expected {expected} spline coefficients, found {found}"
  | .length what expected found => s!"expected {expected} {what}, found {found}"
  | .smoothingOutOfRange smoothing =>
    s!"smoothing parameter must lie in [0, 1), got {text smoothing}"
  | .degenerateGeometry interval =>
    s!"knot interval {interval} has a vanishing or non-finite geometric factor"
  | .invalidDecayRate rate => s!"decay rate must be positive and finite, got {text rate}"
  | .invalidBin bin fault => s!"histogram bin {bin} is invalid: {fault.reason}"
  | .singularNormalEquations => "normal equations of the histogram fit are singular"
  | .linear error => error.message

def SplineError.ofBanded {K α : Type} : Except BandedError α → Except (SplineError K) α :=
  Except.mapError .linear

end LifetimeEfficiency
