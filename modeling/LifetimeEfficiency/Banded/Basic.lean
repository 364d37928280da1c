import LifetimeEfficiency.Scalar
/-!
# Banded systems

Causes of failure and the pivot test shared by the two eliminations. A pivot is compared with the
largest magnitude of its row as the row was given, so rescaling a row never decides the test.
-/
namespace LifetimeEfficiency

inductive BandedError
  | empty
  | bandLength (band : String) (expected found : Nat)
  | rhsLength (expected found : Nat)
  | zeroPivot (row : Nat)
  deriving DecidableEq

def BandedError.message : BandedError → String
  | .empty => "banded system must have at least one row"
  | .bandLength band expected found => s!"band `{band}` has {found} entries, expected {expected}"
  | .rhsLength expected found => s!"right-hand side has {found} entries, expected {expected}"
  | .zeroPivot row => s!"zero pivot in row {row}"

namespace Banded

variable {K : Type} [Scalar K]

/-- Relative to its row, a pivot up to this size counts as zero. -/
def pivotTolerance : K := 1 / Scalar.ofNat (Nat.pow 10 13)

def checkBand (band : String) (values : List K) (expected : Nat) : Except BandedError Unit :=
  if values.length = expected then .ok () else .error (.bandLength band expected values.length)

def checkRhs (rhs : List K) (expected : Nat) : Except BandedError Unit :=
  if rhs.length = expected then .ok () else .error (.rhsLength expected rhs.length)

/-- An undefined pivot fails every comparison and is caught by the finiteness test. -/
def checkPivot (pivot rowScale : K) (row : Nat) : Except BandedError K :=
  if !Scalar.isFinite pivot || Scalar.abs pivot ≤ pivotTolerance * rowScale || pivot == 0 then
    .error (.zeroPivot row)
  else
    .ok pivot

end Banded
end LifetimeEfficiency
