import LifetimeEfficiency.Smearing.Faddeeva
/-!
# Moments

Primitive functions of monomials times the smeared decay, split into one factor that depends on the limit and
one that depends on the decay alone. Differences of the first at two limits, multiplied with the second, integrate
the monomials.
-/
namespace LifetimeEfficiency

structure Smearing (K : Type) where
  erf : K → K
  gauss : K → K
  kernel : K → Complex K → Complex K
  rootPi : K
  rootTwo : K

/-- One complex number for each order from 0 to 3. -/
structure Moments (K : Type) where
  m0 : Complex K
  m1 : Complex K
  m2 : Complex K
  m3 : Complex K

namespace Moments

variable {K : Type} [Scalar K]

def get (m : Moments K) : Nat → Complex K
  | 0 => m.m0
  | 1 => m.m1
  | 2 => m.m2
  | _ => m.m3

def toList (m : Moments K) : List (Complex K) := [m.m0, m.m1, m.m2, m.m3]

instance : Sub (Moments K) :=
  ⟨fun a b => ⟨a.m0 - b.m0, a.m1 - b.m1, a.m2 - b.m2, a.m3 - b.m3⟩⟩

def kernelFactor (x : K) : Nat → K
  | 0 => -1
  | 1 => -2 * x
  | 2 => -2 * (2 * x * x - 1)
  | _ => -4 * x * (2 * x * x - 3)

def gauss (s : Smearing K) (x : K) (z : Complex K) : Moments K :=
  let n0 := s.erf x
  let n1 := s.gauss x
  let n2 := s.kernel x z
  let combine (l0 l1 l2 : K) : Complex K := (n2.scale l2).addReal (n0 * l0 + n1 * l1)
  let slope := 2 / s.rootPi
  ⟨combine 1 0 (kernelFactor x 0),
    combine 0 (slope * kernelFactor x 0) (kernelFactor x 1),
    combine 0 (slope * kernelFactor x 1) (kernelFactor x 2),
    combine 0 (slope * kernelFactor x 2) (kernelFactor x 3)⟩

def decay (z : Complex K) : Moments K :=
  let v := z.inv
  let v2 := v * v
  ⟨v.scale Scalar.half, v2.scale Scalar.half, v * v2.addReal 1, v2 * (v2.scale 3).addReal 3⟩

end Moments
end LifetimeEfficiency
