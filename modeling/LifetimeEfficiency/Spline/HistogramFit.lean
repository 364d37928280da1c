import LifetimeEfficiency.Dense.Cholesky
import LifetimeEfficiency.Spline.Exponential
/-!
# Histogram fits

Spline coefficients from a histogram of decay times by weighted least squares. A bin measures the mean of the spline over it,
weighted with the exponential, so the design matrix holds normalised basis integrals.
-/
namespace LifetimeEfficiency

structure Bin (K : Type) where
  low : K
  high : K
  content : K
  error : K

structure HistogramFit (K : Type) where
  coefs : List K
  covariance : List (List K)
  chiSquared : K

variable {K : Type} [Scalar K]

namespace Bin

def centre (b : Bin K) : K := Scalar.half * (b.low + b.high)

def weight (b : Bin K) : K := 1 / (b.error * b.error)

/-- The first thing that is wrong with a bin; an undefined edge or error is wrong too. -/
def fault? (k : Knots K) (b : Bin K) : Option BinFault :=
  if !(b.low < b.high : Bool) then some .edges
  else if b.low < k.first || k.last < b.high then some .outsideKnots
  else if !(0 < b.error : Bool) then some .nonPositiveError
  else none

/-- The integral of the bare exponential over the bin. -/
def norm (d : DecayFunctions K) (gamma : K) (b : Bin K) : K :=
  (d.exp (-gamma * b.low) - d.exp (-gamma * b.high)) / gamma

def row (d : DecayFunctions K) (k : Knots K) (gamma : K) (b : Bin K) :
    Except (Misuse K) (List K) := do
  let integrals ← d.basisIntegrals k b.low b.high gamma
  return integrals.map (· / b.norm d gamma)

end Bin

namespace HistogramFit

def firstFault (k : Knots K) (bins : List (Bin K)) : Option (Nat × BinFault) :=
  bins.zipIdx.findSome? fun bi => (bi.1.fault? k).map fun fault => (bi.2, fault)

def columns (n : Nat) (rows : List (List K)) : List (List K) :=
  (List.range n).map fun j => rows.map fun row => row.getD j 0

def weighted (n : Nat) (design : List (List K)) (weights : List K) : List (List K) :=
  (columns n design).map fun column => List.zipWith (· * ·) column weights

def normalMatrix (n : Nat) (design : List (List K)) (weights : List K) : List (List K) :=
  let right := weighted n design weights
  (columns n design).map fun column => right.map (Scalar.dot column)

def normalRhs (n : Nat) (design : List (List K)) (weights contents : List K) : List K :=
  (weighted n design weights).map fun column => Scalar.dot column contents

def hasPositiveDiagonal (matrix : List (List K)) : Bool :=
  matrix.zipIdx.all fun ri => 0 < ri.1.getD ri.2 0

def distance (design : List (List K)) (weights contents coefs : List K) : K :=
  Scalar.sum (List.zipWith (fun r w => r * r * w)
    (List.zipWith (fun content row => content - Scalar.dot row coefs) contents design) weights)

/-- Solves the normal equations of a design with `n` columns. -/
def ofDesign (f : Factorisation K) (n : Nat) (bins : List (Bin K)) (design : List (List K)) :
    Except (SplineError K) (HistogramFit K) :=
  let weights := bins.map Bin.weight
  let contents := bins.map Bin.content
  let matrix := normalMatrix n design weights
  if bins.length < n || !hasPositiveDiagonal matrix then .error .singularNormalEquations
  else
    match f.factor matrix with
    | none => .error .singularNormalEquations
    | some factors =>
      let coefs := f.solve factors (normalRhs n design weights contents)
      .ok ⟨coefs, f.inverse factors, distance design weights contents coefs⟩

end HistogramFit

/-- Bins are looked at only once the rate is known to be usable, and integrals only once all bins are. -/
def Knots.fitHistogram (d : DecayFunctions K) (k : Knots K) (bins : List (Bin K)) (gamma : K)
    (f : Factorisation K := Cholesky.elimination) :
    Except (Misuse K) (Except (SplineError K) (HistogramFit K)) :=
  if !(Scalar.isFinite gamma && 0 < gamma) then .ok (.error (.invalidDecayRate gamma))
  else
    match HistogramFit.firstFault k bins with
    | some (bin, fault) => .ok (.error (.invalidBin bin fault))
    | none => do
      let design ← bins.mapM (Bin.row d k gamma)
      return HistogramFit.ofDesign f (k.size + 2) bins design

end LifetimeEfficiency
