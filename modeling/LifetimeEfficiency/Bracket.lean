import LifetimeEfficiency.Scalar
/-!
# Brackets

Which of the gaps between increasing points a number falls into. A point belongs to the gap that it begins, and the last point to
the last gap.
-/
namespace LifetimeEfficiency

variable {K : Type} [Scalar K]

/-- The last point but the final one that is not above `x`; nothing compares with an undefined `x`, and it gets gap zero. -/
def bracket (points : List K) (x : K) : Nat :=
  (points.dropLast.takeWhile fun p => p ≤ x).length - 1

def pointsWithin (points : List K) (lo hi : K) : List K := points.filter (Scalar.within lo hi)

/-- Whether two ends of a range are the same up to a small part of their size. -/
def samePoint (a b : K) : Bool :=
  Scalar.abs (a - b) ≤ 1 / Scalar.ofNat (Nat.pow 10 10) * max (max (Scalar.abs a) (Scalar.abs b)) 1

end LifetimeEfficiency
