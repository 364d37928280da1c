import LifetimeEfficiency.Misuse
import LifetimeEfficiency.Scalar
/-!
# Cubic polynomials

Polynomials of degree at most three by their coefficients. Integrals are taken after moving the origin
to the lower limit, so nearby limits lose no digits; moments are the weights with which the
coefficients enter a convolution.
-/
namespace LifetimeEfficiency

structure Cubic (K : Type) where
  c0 : K
  c1 : K
  c2 : K
  c3 : K

namespace Cubic

variable {K : Type} [Scalar K]

def constant (c : K) : Cubic K := ⟨c, 0, 0, 0⟩

def linear (intercept slope : K) : Cubic K := ⟨intercept, slope, 0, 0⟩

def zero : Cubic K := constant 0

/-- The product `weight (x - a) (x - b) (x - c)`. -/
def ofRoots (weight a b c : K) : Cubic K :=
  ⟨-weight * a * b * c, weight * (a * b + a * c + b * c), -weight * (a + b + c), weight⟩

def coefs (p : Cubic K) : List K := [p.c0, p.c1, p.c2, p.c3]

def coef (p : Cubic K) : Nat → K
  | 0 => p.c0
  | 1 => p.c1
  | 2 => p.c2
  | 3 => p.c3
  | _ => 0

instance : Add (Cubic K) := ⟨fun p q => ⟨p.c0 + q.c0, p.c1 + q.c1, p.c2 + q.c2, p.c3 + q.c3⟩⟩

def scale (p : Cubic K) (r : K) : Cubic K := ⟨p.c0 * r, p.c1 * r, p.c2 * r, p.c3 * r⟩

def value (p : Cubic K) (x : K) : K :=
  Scalar.mulAdd (Scalar.mulAdd (Scalar.mulAdd p.c3 x p.c2) x p.c1) x p.c0

/-- The polynomial `q` with `q y = p (y + offset)`. -/
def shifted (p : Cubic K) (offset : K) : Cubic K :=
  if offset == 0 then p
  else
    let o2 := offset * offset
    let o3 := o2 * offset
    ⟨p.c0 + p.c1 * offset + p.c2 * o2 + p.c3 * o3,
      p.c1 + p.c2 * 2 * offset + p.c3 * 3 * o2,
      p.c2 + p.c3 * 3 * offset,
      p.c3⟩

def integral (p : Cubic K) (lo hi : K) : K :=
  let q := p.shifted lo
  let w := hi - lo
  let w2 := w * w
  let w3 := w2 * w
  q.c0 * w + q.c1 * w2 / 2 + q.c2 * w3 / 3 + q.c3 * (w3 * w) / 4

def binomial : Nat → Nat → Nat
  | _, 0 => 1
  | 0, _ + 1 => 0
  | n + 1, k + 1 => binomial n k + binomial n (k + 1)

def moment (p : Cubic K) (j k : Nat) : K :=
  p.coef (j + k) * Scalar.ofNat (binomial (j + k) j) / Scalar.ofNat (Nat.pow 2 (j + k))

/-- The sum of the orders is a 64-bit word, and less than four. -/
def moment? (p : Cubic K) (j k : Nat) : Except (Misuse K) K :=
  if Nat.pow 2 64 ≤ j + k then .error .wordRange
  else if j + k < 4 then .ok (p.moment j k) else .error (.momentOrder j k)

end Cubic
end LifetimeEfficiency
