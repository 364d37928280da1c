import LifetimeEfficiency.Banded.Basic
/-!
# Symmetric pentadiagonal systems

Solved through `L D Lᵀ` with `L` unit lower triangular of two sub-diagonals. The factors come from the
bands alone; the three substitutions follow the three factors.
-/
namespace LifetimeEfficiency

/-- `first[i]` couples rows `i` and `i+1`, `second[i]` rows `i` and `i+2`. -/
structure Pentadiagonal (K : Type) where
  diag : List K
  first : List K
  second : List K

namespace Pentadiagonal

variable {K : Type} [Scalar K]

def ofBands (diag first second : List K) : Except BandedError (Pentadiagonal K) := do
  if diag.isEmpty then throw .empty
  Banded.checkBand "first" first (diag.length - 1)
  Banded.checkBand "second" second (diag.length - 2)
  return ⟨diag, first, second⟩

def dimension (A : Pentadiagonal K) : Nat := A.diag.length

def entry (A : Pentadiagonal K) (i j : Nat) : K :=
  let lo := min i j
  match max i j - lo with
  | 0 => A.diag.getD lo 0
  | 1 => A.first.getD lo 0
  | 2 => A.second.getD lo 0
  | _ => 0

def dense (A : Pentadiagonal K) : List (List K) :=
  (List.range A.dimension).map fun i => (List.range A.dimension).map (A.entry i)

structure Row (K : Type) where
  diag : K
  first : K
  second : K
  scale : K

def row (A : Pentadiagonal K) (i : Nat) : Row K where
  diag := A.entry i i
  first := A.entry i (i + 1)
  second := A.entry i (i + 2)
  scale :=
    [A.entry i (i + 1), if 1 ≤ i then A.entry (i - 1) i else 0,
      A.entry i (i + 2), if 2 ≤ i then A.entry (i - 2) i else 0].foldl
      (fun scale x => max scale (Scalar.abs x)) (Scalar.abs (A.entry i i))

def rows (A : Pentadiagonal K) : List (Row K) := (List.range A.dimension).map A.row

/-- One column of the factors: the pivot and the two multipliers under it. -/
structure Step (K : Type) where
  d : K
  l1 : K
  l2 : K

def Step.zero : Step K := ⟨0, 0, 0⟩

/-- Factors the rows from number `i` on, `s1` and `s2` being the last and the last but one column. -/
def eliminate (i : Nat) (s2 s1 : Step K) : List (Row K) → Except BandedError (List (Step K))
  | [] => .ok []
  | r :: rs => do
    let d ← Banded.checkPivot (r.diag - s1.l1 * s1.l1 * s1.d - s2.l2 * s2.l2 * s2.d) r.scale i
    let step : Step K := ⟨d, (r.first - s1.l2 * s1.l1 * s1.d) / d, r.second / d⟩
    let steps ← eliminate (i + 1) s1 step rs
    return step :: steps

def factor (A : Pentadiagonal K) : Except BandedError (List (Step K)) :=
  eliminate 0 Step.zero Step.zero A.rows

/-- Solves `L y = rhs`, the products `l2 y` and `l1 y` of the rows above being given. -/
def forward (l2y l1y l2y' : K) : List (Step K) → List K → List K
  | s :: ss, b :: bs =>
    let y := b - l1y - l2y
    y :: forward l2y' (s.l1 * y) (s.l2 * y) ss bs
  | _, _ => []

def scaleDown (steps : List (Step K)) (ys : List K) : List K :=
  List.zipWith (fun s y => y / s.d) steps ys

def backward : List (Step K) → List K → List K
  | s :: ss, z :: zs =>
    match backward ss zs with
    | [] => [z]
    | [x] => [z - s.l1 * x, x]
    | x :: x' :: xs => (z - s.l1 * x - s.l2 * x') :: x :: x' :: xs
  | _, _ => []

def solve (A : Pentadiagonal K) (rhs : List K) : Except BandedError (List K) := do
  Banded.checkRhs rhs A.dimension
  let steps ← A.factor
  return backward steps (scaleDown steps (forward 0 0 0 steps rhs))

end Pentadiagonal
end LifetimeEfficiency
