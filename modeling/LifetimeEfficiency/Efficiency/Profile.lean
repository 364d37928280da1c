import LifetimeEfficiency.Efficiency.Steps
import LifetimeEfficiency.Spline.Curve
/-!
# Profiles

An efficiency as a function of time once its coefficients are numbers: a curve or a step function, with all that a resolution
model asks of it.
-/
namespace LifetimeEfficiency

inductive Profile (K : Type)
  | curve (c : Curve K)
  | steps (s : Steps K)

namespace Profile

variable {K : Type} [Scalar K]

def value : Profile K → K → K
  | curve c, x => c.value x
  | steps s, x => s.value x

def curveIntegral? (c : Curve K) (lo hi : K) : Option K :=
  if samePoint lo c.knots.first && samePoint hi c.knots.last then some c.integral else none

/-- The integral where it has a closed form. -/
def integral? : Profile K → K → K → Option K
  | curve c, lo, hi => curveIntegral? c lo hi
  | steps s, lo, hi => s.integral? lo hi

def segments : Profile K → K → K → List (Segment K)
  | curve c, lo, hi => c.segments lo hi
  | steps s, lo, hi => s.segments lo hi

/-- The integral against the smeared decay of the function at `scale u + offset`, for `u` from `umin` to `umax`. -/
def convolution (s : Smearing K) (c : Convolution K) (p : Profile K) (umin umax : K) :
    Except (Misuse K) (Complex K) := do
  let (lo, hi) ← c.range umin umax
  return c.total s (p.segments lo hi)

def boundaries : Profile K → List K
  | curve c => c.knots.points
  | steps s => s.boundaries

def boundariesWithin (p : Profile K) (lo hi : K) : List K := pointsWithin p.boundaries lo hi

def maxValue : Profile K → K
  | curve c => c.maxAbs
  | steps s => s.maxAbs

end Profile
end LifetimeEfficiency
