/-!
# Scalars

The arithmetic every numerical module is written in: field operations, comparisons, a test for
finiteness and a fused product and sum. A scalar promises no laws, so rounded numbers, exact
numbers and numbers with an absorbing undefined value are scalars alike.
-/
namespace LifetimeEfficiency

class Scalar (K : Type) extends
    Add K, Sub K, Mul K, Div K, Neg K, LT K, LE K, BEq K, Max K, Min K where
  ofNat : Nat → K
  decidableLT : DecidableLT K
  decidableLE : DecidableLE K
  abs : K → K
  isFinite : K → Bool
  /-- The value of `a * b + c`, rounded once where arithmetic rounds. -/
  mulAdd : K → K → K → K

namespace Scalar

attribute [reducible, instance (10)] decidableLT decidableLE

/- Where a number type has operations of its own, those are the ones that are written. -/
attribute [instance (10)] toAdd toSub toMul toDiv toNeg toLT toLE toBEq toMax toMin

variable {K : Type} [Scalar K]

instance (priority := 10) instOfNat (n : Nat) : OfNat K n := ⟨ofNat n⟩

@[inline] def half : K := 1 / 2

/-- A comparison with an undefined operand fails, so it lies in no interval. -/
@[inline] def within (lo hi x : K) : Bool := lo ≤ x && x ≤ hi

def sum (xs : List K) : K := xs.foldl (· + ·) 0

def power (x : K) : Nat → K
  | 0 => 1
  | n + 1 => power x n * x

def dot (xs ys : List K) : K := sum (List.zipWith (· * ·) xs ys)

def largest (xs : List K) : K := xs.foldl max 0

end Scalar
end LifetimeEfficiency
