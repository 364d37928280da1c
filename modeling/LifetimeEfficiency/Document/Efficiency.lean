import LifetimeEfficiency.Document.Fields
import LifetimeEfficiency.Efficiency.Building
/-!
# Documents of efficiencies

What a document says of each kind of efficiency. A spline has either coefficients or values to interpolate, and members that
have a default may be left out.
-/
namespace LifetimeEfficiency

inductive EfficiencyKind
  | spline
  | binned
  | threshold
  deriving DecidableEq

def EfficiencyKind.variants : List (String × EfficiencyKind) :=
  [("CubicSpline", .spline), ("Binned", .binned), ("Threshold", .threshold)]

structure SplineDocument (K : Type) where
  points : List K
  coefs : Option (List K)
  values : Option (List K)
  errors : List K
  smoothing : K
  ends : EndConditions K
  constant : Bool

structure BinnedDocument (K : Type) where
  boundaries : List K
  coefs : List K
  constant : Bool

structure ThresholdDocument (K : Type) where
  low : K
  high : K
  thresholds : List (K × K)
  constant : Bool

variable {K : Type} [Scalar K]

namespace EndCondition

def variants : List (String × (K → EndCondition K)) :=
  [("SecondDerivative", .secondDerivative), ("FirstDerivative", .firstDerivative)]

/-- A condition is an object that gives one number to the kind of derivative; the kind alone is not enough. -/
def ofJson : Json K → Reading K (EndCondition K)
  | .obj [(name, content)] => do
    let make ← choose name
    return make (← content.number)
  | .str name => do
    let _ ← choose name
    throw .illFormed
  | _ => throw .illFormed
where
  choose (name : String) : Reading K (K → EndCondition K) :=
    match Keyed.find? name variants with
    | some make => return make
    | none => throw (.unknownVariant name (Keyed.keys (variants (K := K))))

end EndCondition

namespace EndConditions

def ofParts (left right : Option (EndCondition K)) : EndConditions K :=
  ⟨left.getD natural.left, right.getD natural.right⟩

def ofJson : Json K → Reading K (EndConditions K)
  | .obj members => do
    let left ← Field.read members "left" EndCondition.ofJson
    let right ← Field.read members "right" EndCondition.ofJson
    return ofParts left right
  | .arr [] => return natural
  | .arr [left] => return ofParts (← EndCondition.ofJson left) none
  | .arr (left :: right :: rest) => do
    let left ← EndCondition.ofJson left
    let right ← EndCondition.ofJson right
    if rest.isEmpty then return ⟨left, right⟩ else throw .illFormed
  | _ => throw .illFormed

end EndConditions

namespace SplineDocument

def ofMembers (members : List (String × Json K)) : Reading K (SplineDocument K) := do
  let numbers := Json.list Json.number
  let ends ← Field.read members "boundary_conditions" EndConditions.ofJson
  let coefs ← Field.read members "coefficients" (Json.nullable numbers)
  let constant ← Field.read members "constant_coefficients" Json.truth
  let errors ← Field.read members "errors" numbers
  let points ← Field.read members "knots" numbers
  let smoothing ← Field.read members "smoothing" Json.number
  let values ← Field.read members "values" (Json.nullable numbers)
  let points ← Field.require "knots" points
  return ⟨points, coefs.join, values.join, errors.getD [], smoothing.getD 0,
    ends.getD .natural, constant.getD false⟩

end SplineDocument

namespace BinnedDocument

def ofMembers (members : List (String × Json K)) : Reading K (BinnedDocument K) := do
  let numbers := Json.list Json.number
  let boundaries ← Field.read members "boundaries" numbers
  let coefs ← Field.read members "coefficients" numbers
  let constant ← Field.read members "constant_coefficients" Json.truth
  let boundaries ← Field.require "boundaries" boundaries
  let coefs ← Field.require "coefficients" coefs
  return ⟨boundaries, coefs, constant.getD false⟩

end BinnedDocument

namespace ThresholdDocument

def entryOfJson : Json K → Reading K (K × K)
  | .obj members => do
    let fraction ← Field.read members "efficiency" Json.number
    let limit ← Field.read members "upper_limit" Json.number
    let limit ← Field.require "upper_limit" limit
    return (limit, ← Field.require "efficiency" fraction)
  | .arr [limit, fraction] => do
    let limit ← limit.number
    return (limit, ← fraction.number)
  | _ => throw .illFormed

def ofMembers (members : List (String × Json K)) : Reading K (ThresholdDocument K) := do
  let constant ← Field.read members "constant_coefficients" Json.truth
  let high ← Field.read members "high" Json.number
  let low ← Field.read members "low" Json.number
  let thresholds ← Field.read members "thresholds" (Json.list entryOfJson)
  let low ← Field.require "low" low
  let high ← Field.require "high" high
  return ⟨low, high, thresholds.getD [], constant.getD false⟩

end ThresholdDocument
end LifetimeEfficiency
