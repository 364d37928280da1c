import LifetimeEfficiency.Spline.Knots
/-!
# Basis

On every interval four cubic basis functions differ from zero. Each is a sum of products of three linear factors, and
the products share the four spacings of the interval as their denominators.
-/
namespace LifetimeEfficiency

/-- The product `weight (x - a) (x - b) (x - c)`. -/
structure BasisTerm (K : Type) where
  weight : K
  a : K
  b : K
  c : K

namespace BasisTerm

variable {K : Type} [Scalar K]

def value (t : BasisTerm K) (x : K) : K := t.weight * (x - t.a) * (x - t.b) * (x - t.c)

def polynomial (t : BasisTerm K) : Cubic K := Cubic.ofRoots t.weight t.a t.b t.c

end BasisTerm

/-- The products that make up the four basis functions on the interval of a window. -/
def Window.slots {K : Type} [Scalar K] (w : Window K) : List (List (BasisTerm K)) :=
  let g := Spacing.ofWindow w
  [[⟨-1 / g.p, w.d, w.d, w.d⟩],
    [⟨1 / g.p, w.a, w.d, w.d⟩, ⟨1 / g.q, w.b, w.d, w.e⟩, ⟨1 / g.r, w.c, w.e, w.e⟩],
    [⟨-1 / g.q, w.b, w.b, w.d⟩, ⟨-1 / g.r, w.b, w.c, w.e⟩, ⟨-1 / g.s, w.c, w.c, w.f⟩],
    [⟨1 / g.s, w.c, w.c, w.c⟩]]

namespace Knots

variable {K : Type} [Scalar K]

def slots (k : Knots K) (i : Int) : List (List (BasisTerm K)) := (k.window i).slots

def terms (k : Knots K) (i : Int) : List (BasisTerm K) := (k.slots i).flatten

def basisValues (k : Knots K) (i : Int) (x : K) : List K :=
  (k.slots i).map fun terms => Scalar.sum (terms.map fun t => t.value x)

def basisValue (k : Knots K) (i : Int) (slot : Nat) (x : K) : K := (k.basisValues i x).getD slot 0

def basisPolynomials (k : Knots K) (i : Int) : List (Cubic K) :=
  (k.slots i).map fun terms => (terms.map BasisTerm.polynomial).foldl (· + ·) Cubic.zero

def basisPolynomial (k : Knots K) (i : Int) (slot : Nat) : Cubic K :=
  (k.basisPolynomials i).getD slot Cubic.zero

def interval? (k : Knots K) (i : Nat) : Option Nat := if i < k.intervals then some i else none

end Knots
end LifetimeEfficiency
