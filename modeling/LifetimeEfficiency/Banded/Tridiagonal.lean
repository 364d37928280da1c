import LifetimeEfficiency.Banded.Basic
/-!
# Tridiagonal systems

One sweep from the first row down, which eliminates a row and its right-hand side together, and substitution from the last row up.
-/
namespace LifetimeEfficiency

/-- Row `i` reads `sub[i-1] x[i-1] + diag[i] x[i] + sup[i] x[i+1]`. -/
structure Tridiagonal (K : Type) where
  sub : List K
  diag : List K
  sup : List K

namespace Tridiagonal

variable {K : Type} [Scalar K]

def ofBands (sub diag sup : List K) : Except BandedError (Tridiagonal K) := do
  if diag.isEmpty then throw .empty
  Banded.checkBand "sub" sub (diag.length - 1)
  Banded.checkBand "sup" sup (diag.length - 1)
  return ⟨sub, diag, sup⟩

def dimension (A : Tridiagonal K) : Nat := A.diag.length

def entry (A : Tridiagonal K) (i j : Nat) : K :=
  if i = j then A.diag.getD i 0
  else if j + 1 = i then A.sub.getD j 0
  else if i + 1 = j then A.sup.getD i 0
  else 0

def dense (A : Tridiagonal K) : List (List K) :=
  (List.range A.dimension).map fun i => (List.range A.dimension).map (A.entry i)

/-- The three entries of one row; absent neighbours are zero. -/
structure Row (K : Type) where
  below : K
  diag : K
  above : K

def Row.scale (r : Row K) : K :=
  max (max (Scalar.abs r.diag) (Scalar.abs r.below)) (Scalar.abs r.above)

def rows (A : Tridiagonal K) : List (Row K) :=
  List.zipWith (fun ab c => ⟨ab.1, ab.2, c⟩) ((0 :: A.sub).zip A.diag) (A.sup ++ [0])

/-- Sweeps over the rows from number `i` on. Each leaves the entry above its diagonal over the pivot, and its right-hand side; what the
row before left of them is `ratio` and `y`. -/
def sweep (i : Nat) (ratio y : K) : List (Row K) → List K → Except BandedError (List (K × K))
  | r :: rs, b :: bs => do
    let pivot ← Banded.checkPivot (r.diag - r.below * ratio) r.scale i
    let left := (r.above / pivot, (b - r.below * y) / pivot)
    let rest ← sweep (i + 1) left.1 left.2 rs bs
    return left :: rest
  | _, _ => .ok []

def substitute : List (K × K) → List K
  | [] => []
  | (ratio, y) :: rest =>
    match substitute rest with
    | [] => [y]
    | x :: xs => (y - ratio * x) :: x :: xs

def solve (A : Tridiagonal K) (rhs : List K) : Except BandedError (List K) := do
  Banded.checkRhs rhs A.dimension
  return substitute (← sweep 0 0 0 A.rows rhs)

end Tridiagonal
end LifetimeEfficiency
