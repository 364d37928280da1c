import LifetimeEfficiency.Scalar
/-!
# Decay bases

The time dependences that a resolution smears: an exponential decay, alone or times an oscillation or a hyperbolic function of
half a width difference.
-/
namespace LifetimeEfficiency

inductive DecayBasis (K : Type)
  /-- The constant one. -/
  | flat
  | exp (tau : K)
  | sin (tau omega : K)
  | cos (tau omega : K)
  | sinh (tau deltaGamma : K)
  | cosh (tau deltaGamma : K)
  deriving DecidableEq

structure Elementary (K : Type) where
  exp : K → K
  sin : K → K
  cos : K → K
  sinh : K → K
  cosh : K → K

namespace DecayBasis

variable {K : Type} [Scalar K]

/-- A hyperbolic cosine without a width difference is a plain exponential. -/
def normalized : DecayBasis K → DecayBasis K
  | .cosh tau deltaGamma => if deltaGamma == 0 then .exp tau else .cosh tau deltaGamma
  | basis => basis

def tau? : DecayBasis K → Option K
  | .flat => none
  | .exp tau => some tau
  | .sin tau _ => some tau
  | .cos tau _ => some tau
  | .sinh tau _ => some tau
  | .cosh tau _ => some tau

def value (f : Elementary K) (basis : DecayBasis K) (t : K) : K :=
  match basis with
  | .flat => 1
  | .exp tau => f.exp (-t / tau)
  | .sin tau omega => f.exp (-t / tau) * f.sin (omega * t)
  | .cos tau omega => f.exp (-t / tau) * f.cos (omega * t)
  | .sinh tau deltaGamma => f.exp (-t / tau) * f.sinh (Scalar.half * deltaGamma * t)
  | .cosh tau deltaGamma => f.exp (-t / tau) * f.cosh (Scalar.half * deltaGamma * t)

end DecayBasis
end LifetimeEfficiency
