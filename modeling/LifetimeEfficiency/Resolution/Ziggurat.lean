import LifetimeEfficiency.Resolution.Generation
/-!
# Normal deviates from words

The ziggurat of 256 layers of equal area under the curve `exp (-x² / 2)`. One 64-bit word chooses a layer by its low byte and a
place in it by its leading 52 bits. Most places lie under the curve without a further look; the others are
settled with more words, and the base layer has a tail of its own.
-/
namespace LifetimeEfficiency.Ziggurat

/-- Where the tail of the base layer begins. -/
def tail : Float := 3.654152885361008796

/-- The area of each layer. -/
def area : Float := 0.00492867323399

def density (x : Float) : Float := Float.exp (-x * x / 2)

def nextEdge (x : Float) : Float := Float.sqrt (-2 * Float.log (area / x + density x))

def edgesFrom : Nat → Float → List Float
  | 0, _ => [0]
  | n + 1, x => x :: edgesFrom n (nextEdge x)

/-- The edge of each layer; the base layer is as wide as a rectangle of its area. -/
def edges : Array Float := (area / density tail :: edgesFrom 255 tail).toArray

def edge (i : Nat) : Float := edges.getD i 0

/-- The number in `[-1, 1)` that the leading 52 bits give. -/
def symmetric (w : UInt64) : Float := (w >>> 12).toFloat / 2251799813685248 - 1

def uniform (w : UInt64) : Float := (w >>> 11).toFloat / 9007199254740992

/-- The number in `(0, 1)` that the leading 52 bits give. -/
def openUniform (w : UInt64) : Float :=
  let m := (w >>> 12).toFloat
  (2 * m + 1) / 9007199254740992

variable (word : Nat → UInt64)

/-- How far beyond the beginning of the tail a deviate lies, if the two words from `n` on tell. -/
def beyond (n : Nat) : Option Float × Nat :=
  let x := Float.log (openUniform (word n)) / tail
  let y := Float.log (openUniform (word (n + 1)))
  (if -2 * y < x * x then none else some (-x), n + 2)

/-- A deviate of the tail on the side of `u`; it takes as many words as it needs within the bound. -/
def inTail (bound : Nat) (u : Float) (n : Nat) : Option Float × Nat :=
  match Generator.firstSuccess (beyond word) bound n with
  | some (x, n) => (some (if u < 0 then -(x + tail) else tail + x), n)
  | none => (none, n)

def attempt (bound : Nat) (n : Nat) : Option Float × Nat :=
  let i := (word n &&& 255).toNat
  let u := symmetric (word n)
  let x := u * edge i
  if x.abs < edge (i + 1) then (some x, n + 1)
  else if i = 0 then inTail word bound u (n + 1)
  else
    let height := density (edge (i + 1)) +
      (density (edge i) - density (edge (i + 1))) * uniform (word (n + 1))
    (if height < density x then some x else none, n + 2)

/-- A deviate and the number of the next word. Words that repeat after `bound` of them give one within so many tries or never. -/
def normal (bound : Nat) (n : Nat) : Float × Nat :=
  match Generator.firstSuccess (attempt word bound) bound n with
  | some found => found
  | none => (0, n)

end LifetimeEfficiency.Ziggurat
