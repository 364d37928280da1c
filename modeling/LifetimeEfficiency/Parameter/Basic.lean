import LifetimeEfficiency.Scalar
/-!
# Parameter states

A named number, the range it may move in and whether it is held constant. A state without a range takes every number, but
never an undefined one.
-/
namespace LifetimeEfficiency

structure ParameterState (K : Type) where
  name : String
  value : K
  range : Option (K × K)
  constant : Bool

inductive ParameterError (K : Type)
  | invalidRange (name : String) (min max : K)
  | outOfRange (name : String) (value : K) (range : Option (K × K))
  | constant (name : String)
  deriving DecidableEq

/-- The ends of a range in text; without one they are infinite. -/
def rangeText {K : Type} (text : K → String) : Option (K × K) → String × String
  | some (lo, hi) => (text lo, text hi)
  | none => ("-inf", "inf")

def ParameterError.message {K : Type} (text : K → String) : ParameterError K → String
  | .invalidRange name min max =>
    s!"parameter '{name}' has an empty range [{text min}, {text max}]"
  | .outOfRange name value range =>
    let (lo, hi) := rangeText text range
    s!"value {text value} of parameter '{name}' lies outside [{lo}, {hi}]"
  | .constant name => s!"parameter '{name}' is constant"

namespace ParameterState

variable {K : Type} [Scalar K]

def constantly (name : String) (value : K) : ParameterState K := ⟨name, value, none, true⟩

/-- Only a defined number compares with itself, which is all that a missing range asks. -/
def admits (range : Option (K × K)) (value : K) : Bool :=
  match range with
  | some (lo, hi) => Scalar.within lo hi value
  | none => value ≤ value

def floating (name : String) (value min max : K) :
    Except (ParameterError K) (ParameterState K) :=
  if !(min < max : Bool) then .error (.invalidRange name min max)
  else if !admits (some (min, max)) value then .error (.outOfRange name value (some (min, max)))
  else .ok ⟨name, value, some (min, max), false⟩

def setValue (s : ParameterState K) (value : K) : Except (ParameterError K) (ParameterState K) :=
  if s.constant then .error (.constant s.name)
  else if !admits s.range value then .error (.outOfRange s.name value s.range)
  else .ok { s with value := value }

def setConstant (s : ParameterState K) (constant : Bool) : ParameterState K :=
  { s with constant := constant }

end ParameterState
end LifetimeEfficiency
