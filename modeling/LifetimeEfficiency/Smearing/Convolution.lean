import LifetimeEfficiency.Polynomial
import LifetimeEfficiency.Smearing.Moments
/-!
# Convolution

Integrals of a piecewise cubic function of `t = scale u + offset` against the smeared decay in `u`. Segments are added one
at a time; the moments at the end of the last one are kept for a neighbour that begins there.
-/
namespace LifetimeEfficiency

/-- A cubic polynomial in force from `lo` to `hi`. -/
structure Segment (K : Type) where
  lo : K
  hi : K
  polynomial : Cubic K

structure Convolution (K : Type) where
  scale : K
  offset : K
  z : Complex K

/-- The total so far, with the moments at the upper end of the last segment. -/
structure Accumulator (K : Type) where
  boundary : Option (K × Moments K)
  sum : Complex K

namespace Convolution

variable {K : Type} [Scalar K]

/-- The range of `t` that belongs to a range of `u`, which must not run backwards. -/
def range (c : Convolution K) (umin umax : K) : Except (Misuse K) (K × K) :=
  let lo := c.scale * umin + c.offset
  let hi := c.scale * umax + c.offset
  if lo ≤ hi then .ok (lo, hi) else .error (.invertedConvolution lo hi)

def start : Accumulator K := ⟨none, Complex.zero⟩

def momentsAt (s : Smearing K) (c : Convolution K) (t : K) : Moments K :=
  Moments.gauss s ((t - c.offset) / c.scale) c.z

def lowerMoments (s : Smearing K) (c : Convolution K) (acc : Accumulator K) (t : K) :
    Moments K :=
  match acc.boundary with
  | some (t', m) => if t' == t then m else c.momentsAt s t
  | none => c.momentsAt s t

/-- The pairs of orders whose sum is at most three. -/
def orders : List (Nat × Nat) :=
  (List.range 4).flatMap fun j => (List.range (4 - j)).map fun k => (j, k)

def addMoments (c : Convolution K) (p : Cubic K) (difference : Moments K) (sum : Complex K) :
    Complex K :=
  let decay := Moments.decay c.z
  orders.foldl
    (fun sum jk =>
      let weight := p.moment jk.1 jk.2 * Scalar.power c.scale (jk.1 + jk.2)
      if weight == 0 then sum
      else sum + (difference.get jk.1 * decay.get jk.2).scale weight)
    sum

/-- Empty and inverted segments are skipped and leave the kept moments alone. -/
def addSegment (s : Smearing K) (c : Convolution K) (acc : Accumulator K) (g : Segment K) :
    Accumulator K :=
  if g.lo < g.hi then
    let upper := c.momentsAt s g.hi
    ⟨some (g.hi, upper),
      c.addMoments (g.polynomial.shifted c.offset) (upper - c.lowerMoments s acc g.lo) acc.sum⟩
  else acc

def total (s : Smearing K) (c : Convolution K) (segments : List (Segment K)) : Complex K :=
  (segments.foldl (c.addSegment s) start).sum

end Convolution
end LifetimeEfficiency
