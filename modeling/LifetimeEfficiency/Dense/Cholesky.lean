import LifetimeEfficiency.Scalar
/-!
# Positive definite systems

A fit leaves its normal equations to a factorisation that it does not look into. One that can be run is symmetric elimination without
roots: each step removes the first row and column and hands the rest, less the outer product of that column, to the next one; a
pivot that is not above zero ends it without a result.
-/
namespace LifetimeEfficiency

/-- What is asked of a factorisation of symmetric matrices, whatever it keeps of a matrix that it accepts. -/
structure Factorisation (K : Type) where
  Factors : Type
  factor : List (List K) → Option Factors
  solve : Factors → List K → List K
  inverse : Factors → List (List K)

/-- One eliminated column: the pivot and the multipliers of the rows below it. -/
structure Pivot (K : Type) where
  d : K
  below : List K

namespace Cholesky

variable {K : Type} [Scalar K]

/-- What is left of the other rows when the first column is eliminated. -/
def complement (column multipliers : List K) (rest : List (List K)) : List (List K) :=
  List.zipWith (fun m row => List.zipWith (fun c a => a - m * c) column row.tail) multipliers rest

def factor : Nat → List (List K) → Option (List (Pivot K))
  | 0, _ => some []
  | n + 1, rows =>
    match rows with
    | (d :: column) :: rest =>
      if 0 < d then
        let below := column.map (· / d)
        (factor n (complement column below rest)).map fun pivots => ⟨d, below⟩ :: pivots
      else none
    | _ => none

def solve : List (Pivot K) → List K → List K
  | p :: ps, b :: bs =>
    let xs := solve ps (List.zipWith (fun m x => x - m * b) p.below bs)
    (b / p.d - Scalar.dot p.below xs) :: xs
  | _, _ => []

def unit (n j : Nat) : List K := (List.range n).map fun i => if i = j then 1 else 0

def inverse (pivots : List (Pivot K)) : List (List K) :=
  let n := pivots.length
  let columns := (List.range n).map fun j => solve pivots (unit n j)
  (List.range n).map fun i => columns.map fun column => column.getD i 0

def elimination : Factorisation K where
  Factors := List (Pivot K)
  factor rows := factor rows.length rows
  solve := solve
  inverse := inverse

end Cholesky
end LifetimeEfficiency
