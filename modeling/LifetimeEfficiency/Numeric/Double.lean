import LifetimeEfficiency.Numeric.Binary64
import LifetimeEfficiency.Numeric.ErrorFunction
import LifetimeEfficiency.Numeric.IncompleteGamma
import LifetimeEfficiency.Resolution.DecayBasis
import LifetimeEfficiency.Smearing.Moments
import LifetimeEfficiency.Spline.Exponential
/-!
# Doubles

Doubles as scalars, with the elementary and special functions that the library is run with. The larger or smaller of two numbers
ignores an undefined one.
-/
namespace LifetimeEfficiency.Double

instance : Scalar Float where
  max a b := if a.isNaN then b else if a < b then b else a
  min a b := if a.isNaN then b else if b < a then b else a
  ofNat := Float.ofNat
  decidableLT := inferInstance
  decidableLE := inferInstance
  abs := Float.abs
  isFinite := Float.isFinite
  mulAdd := Binary64.mulAdd

def pi : Float := 3.141592653589793

def nan : Float := 0 / 0

/-- The exponential; where a part is not finite the limit is taken along the real axis first. -/
def complexExp (z : Complex Float) : Complex Float :=
  let polar : Complex Float :=
    ⟨Float.exp z.re * Float.cos z.im, Float.exp z.re * Float.sin z.im⟩
  if z.re.isInf then
    if z.re < 0 then
      if z.im.isFinite then polar else ⟨0, 0⟩
    else if z.im == 0 || !z.im.isFinite then ⟨z.re, if z.im.isInf then nan else z.im⟩
    else polar
  else if z.re.isNaN && z.im == 0 then z
  else polar

def expansionTerms : Nat := 40

def expansionScale : Float := Float.sqrt (expansionTerms.toFloat / Float.sqrt 2)

/-- The nodes above zero, as angles, with the values of the transformed Gaussian. -/
def expansionNodes : List (Float × Float) :=
  (List.range (2 * expansionTerms - 1)).map fun k =>
    let theta := (k + 1).toFloat * pi / (2 * expansionTerms).toFloat
    let l := expansionScale
    let t := l * Float.tan (theta / 2)
    (theta, Float.exp (-t * t) * (l * l + t * t))

/-- The Fourier coefficient of order `n + 1`; nodes of either sign count alike, the one at zero once. -/
def expansionCoef (n : Nat) : Float :=
  let l := expansionScale
  let total := expansionNodes.foldl
    (fun total node => total + 2 * node.2 * Float.cos ((n + 1).toFloat * node.1)) (l * l)
  total / (4 * expansionTerms).toFloat

def expansion : Expansion Float where
  l := expansionScale
  coefs := (List.range expansionTerms).map expansionCoef
  rootPi := Float.sqrt pi
  exp := Float.exp
  complexExp := complexExp

def smearing : Smearing Float where
  erf := ErrorFunction.erf
  gauss := expansion.gauss
  kernel := expansion.kernel
  rootPi := Float.sqrt pi
  rootTwo := Float.sqrt 2

def decay : DecayFunctions Float where
  exp := Float.exp
  lowerGamma := IncompleteGamma.lower?

def elementary : Elementary Float where
  exp := Float.exp
  sin := Float.sin
  cos := Float.cos
  sinh := Float.sinh
  cosh := Float.cosh

end LifetimeEfficiency.Double
