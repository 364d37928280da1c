import LifetimeEfficiency.Complex
/-!
# The Faddeeva function

`w z = exp (-z²) erfc (-i z)` by a rational expansion in the upper half plane and by reflection below it. The kernel is
a decaying exponential smeared by a unit Gaussian; far out it is put together from the reflected form, in
which the growing exponential and the Gaussian are one factor.
-/
namespace LifetimeEfficiency

/-- A polynomial in `(l + i z) / (l - i z)`, with the two exponentials that reflection needs. -/
structure Expansion (K : Type) where
  l : K
  coefs : List K
  rootPi : K
  exp : K → K
  complexExp : Complex K → Complex K

namespace Expansion

variable {K : Type} [Scalar K]

def gauss (e : Expansion K) (x : K) : K := e.exp (-x * x)

def upper (e : Expansion K) (z : Complex K) : Complex K :=
  let iz := Complex.i * z
  let denominator := Complex.realSub e.l iz
  let ratio := iz.addReal e.l / denominator
  let p := e.coefs.foldr (fun a p => (p * ratio).addReal a) Complex.zero
  p.scale 2 / (denominator * denominator) + Complex.realDiv 1 (denominator.scale e.rootPi)

def faddeeva (e : Expansion K) (z : Complex K) : Complex K :=
  if z.im < 0 then (e.complexExp (-z * z)).scale 2 - e.upper (-z) else e.upper z

/-- Up to this value of `z.re - x` the kernel takes the reflected form. -/
def reflectionThreshold : K := -5

/-- The product of `exp (-x²)` and `w (i (z - x))`. -/
def kernel (e : Expansion K) (x : K) (z : Complex K) : Complex K :=
  let re := z.re - x
  let argument : Complex K := ⟨-z.im, re⟩
  if reflectionThreshold < re then (e.faddeeva argument).scale (e.gauss x)
  else
    (e.complexExp (z * z - (z.scale 2).scale x)).scale 2 -
      (e.faddeeva (-argument)).scale (e.gauss x)

end Expansion
end LifetimeEfficiency
