import LifetimeEfficiency.Bracket
import LifetimeEfficiency.Polynomial
import LifetimeEfficiency.Spline.Error
/-!
# Knots

Strictly increasing points with the outer two repeated without end, so that `u` is defined for every
integer. The spacings of neighbouring knots normalise the basis, and `locate` assigns every number to an interval
or to one of the two sides.
-/
namespace LifetimeEfficiency

structure Knots (K : Type) where
  points : List K

/-- Six neighbouring knots; the interval in question goes from `c` to `d`. -/
structure Window (K : Type) where
  a : K
  b : K
  c : K
  d : K
  e : K
  f : K

/-- Products of knot spacings that normalise the basis on one interval. -/
structure Spacing (K : Type) where
  p : K
  q : K
  r : K
  s : K

inductive Location
  | left
  | interval (i : Nat)
  | right
  deriving DecidableEq

namespace Knots

variable {K : Type} [Scalar K]

def size (k : Knots K) : Nat := k.points.length

def intervals (k : Knots K) : Nat := k.size - 1

/-- Knot `i`; beyond either end the outer knot is repeated. -/
def u (k : Knots K) (i : Int) : K := k.points.getD (min i.toNat (k.size - 1)) 0

def first (k : Knots K) : K := k.u 0

def last (k : Knots K) : K := k.u (k.size - 1 : Nat)

def h (k : Knots K) (i j : Int) : K := k.u i - k.u j

def width (k : Knots K) (i : Int) : K := k.h (i + 1) i

def r (k : Knots K) (i : Int) : K := 3 / k.width i

def f (k : Knots K) (i : Int) : K := -(k.r (i - 1) + k.r i)

def p (k : Knots K) (i : Int) : K := 2 * (k.width (i - 1) + k.width i)

/-- Positions are signed words of 64 bits. -/
def isPosition (i : Int) : Bool := -Int.pow 2 63 ≤ i && i < Int.pow 2 63

/-- What is asked of a knot and the next one, or of the one before as well, needs positions for all of them. -/
def beside? (before : Bool) (quantity : Int → K) (i : Int) : Except (Misuse K) K :=
  if (before && !isPosition (i - 1)) || !isPosition (i + 1) then .error .wordRange
  else .ok (quantity i)

def width? (k : Knots K) (i : Int) : Except (Misuse K) K := beside? false k.width i

def r? (k : Knots K) (i : Int) : Except (Misuse K) K := beside? false k.r i

def f? (k : Knots K) (i : Int) : Except (Misuse K) K := beside? true k.f i

def p? (k : Knots K) (i : Int) : Except (Misuse K) K := beside? true k.p i

def window (k : Knots K) (i : Int) : Window K :=
  ⟨k.u (i - 2), k.u (i - 1), k.u i, k.u (i + 1), k.u (i + 2), k.u (i + 3)⟩

end Knots

namespace Spacing

variable {K : Type} [Scalar K]

def ofWindow (w : Window K) : Spacing K where
  p := (w.d - w.a) * (w.d - w.b) * (w.d - w.c)
  q := (w.d - w.b) * (w.e - w.b) * (w.d - w.c)
  r := (w.e - w.c) * (w.e - w.b) * (w.d - w.c)
  s := (w.e - w.c) * (w.f - w.c) * (w.d - w.c)

def isUsable (g : Spacing K) : Bool :=
  [g.p, g.q, g.r, g.s].all fun x => Scalar.isFinite x && !(x == 0)

end Spacing

namespace Knots

variable {K : Type} [Scalar K]

def spacing (k : Knots K) (i : Int) : Spacing K := .ofWindow (k.window i)

/-- The first position whose successor does not exceed it. -/
def firstDescent (points : List K) : Option Nat :=
  (points.zip points.tail).findIdx? fun ab => ab.2 ≤ ab.1

def ofList (points : List K) : Except (SplineError K) (Knots K) :=
  let k : Knots K := ⟨points⟩
  if points.length < 2 then .error (.tooFewKnots points.length)
  else
    match points.findIdx? fun x => !Scalar.isFinite x with
    | some i => .error (.nonFiniteKnot i)
    | none =>
      match firstDescent points with
      | some i => .error (.nonIncreasingKnots (i + 1) (k.u i) (k.u (i + 1)))
      | none =>
        match (List.range k.intervals).find? fun i : Nat => !(k.spacing i).isUsable with
        | some i => .error (.degenerateGeometry i)
        | none => .ok k

/-- An undefined number lies on neither side and is put into the first interval. -/
def locate (k : Knots K) (x : K) : Location :=
  if x < k.first then .left
  else if k.last < x then .right
  else .interval (bracket k.points x)

end Knots
end LifetimeEfficiency
