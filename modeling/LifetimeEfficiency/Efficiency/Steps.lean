import LifetimeEfficiency.Bracket
import LifetimeEfficiency.Smearing.Convolution
/-!
# Step functions

Constant heights between increasing boundaries. Beyond the boundaries the outer heights go on if the function is extended, and
otherwise it vanishes.
-/
namespace LifetimeEfficiency

structure Steps (K : Type) where
  boundaries : List K
  heights : List K
  extended : Bool

namespace Steps

variable {K : Type} [Scalar K]

def first (s : Steps K) : K := s.boundaries.getD 0 0

def last (s : Steps K) : K := s.boundaries.getD (s.boundaries.length - 1) 0

def firstHeight (s : Steps K) : K := s.heights.getD 0 0

def lastHeight (s : Steps K) : K := s.heights.getD (s.heights.length - 1) 0

/-- Each bin with its edges and its height. -/
def bins (s : Steps K) : List ((K × K) × K) :=
  (s.boundaries.zip s.boundaries.tail).zip s.heights

def value (s : Steps K) (x : K) : K :=
  if x < s.first then if s.extended then s.firstHeight else 0
  else if s.last < x then if s.extended then s.lastHeight else 0
  else s.heights.getD (bracket s.boundaries x) 0

def area (s : Steps K) (lo hi : K) : K :=
  Scalar.sum (s.bins.map fun bin =>
    let overlap := min hi bin.1.2 - max lo bin.1.1
    if 0 < overlap then overlap * bin.2 else 0)

/-- An extended function has an area in closed form over its whole support only. -/
def integral? (s : Steps K) (lo hi : K) : Option K :=
  if !s.extended then some (s.area lo hi)
  else if samePoint lo s.first && samePoint hi s.last then some (s.area s.first s.last)
  else none

def maxAbs (s : Steps K) : K := Scalar.largest (s.heights.map Scalar.abs)

def segments (s : Steps K) (lo hi : K) : List (Segment K) :=
  (if s.extended && lo < s.first then
    [⟨lo, min hi s.first, Cubic.constant s.firstHeight⟩] else []) ++
    s.bins.map (fun bin => ⟨max lo bin.1.1, min hi bin.1.2, Cubic.constant bin.2⟩) ++
    (if s.extended && s.last < hi then
      [⟨max lo s.last, hi, Cubic.constant s.lastHeight⟩] else [])

end Steps
end LifetimeEfficiency
