import LifetimeEfficiency.Json.Basic
/-!
# Fields of documents

How a member of a document is read. Members are visited in the order of their names and the first one of the wrong type is
reported; only a document whose members are all well typed is searched for missing ones. Only some failures are told apart.
-/
namespace LifetimeEfficiency

inductive DocumentError (K : Type)
  /-- The text is no JSON, or a value has the wrong type or length. -/
  | illFormed
  | missingField (name : String)
  | unknownVariant (found : String) (known : List String)
  | notOneOf (found expected : String)
  | nonPositiveWidth (width : K)
  deriving DecidableEq

namespace DocumentError

def quoted (name : String) : String := s!"`{name}`"

def choices : List String → String
  | [a, b] => s!"{quoted a} or {quoted b}"
  | names =>
    let listed := String.intercalate ", " (names.map quoted)
    s!"one of {listed}"

/-- Numbers are written by `text`; a value of the wrong type or length has no text. -/
def message? {K : Type} (text : K → String) : DocumentError K → Option String
  | .illFormed => none
  | .missingField name => some s!"missing field {quoted name}"
  | .unknownVariant found known =>
    some s!"unknown variant {quoted found}, expected {choices known}"
  | .notOneOf found expected => some s!"invalid value: {found}, expected {expected}"
  | .nonPositiveWidth width =>
    some s!"invalid value: floating point {quoted (text width)}, expected a positive resolution width"

end DocumentError

abbrev Reading (K α : Type) := Except (DocumentError K) α

namespace Json

variable {K α : Type}

def number : Json K → Reading K K
  | .num x => .ok x
  | _ => .error .illFormed

def text : Json K → Reading K String
  | .str s => .ok s
  | _ => .error .illFormed

def truth : Json K → Reading K Bool
  | .bool b => .ok b
  | _ => .error .illFormed

def list (item : Json K → Reading K α) : Json K → Reading K (List α)
  | .arr items => items.mapM item
  | _ => .error .illFormed

/-- A null stands for an absent value. -/
def nullable (value : Json K → Reading K α) : Json K → Reading K (Option α)
  | .null => .ok none
  | doc => some <$> value doc

def members : Json K → Reading K (List (String × Json K))
  | .obj members => .ok members
  | _ => .error .illFormed

end Json

namespace Field

variable {K α : Type}

def read (members : List (String × Json K)) (name : String) (value : Json K → Reading K α) :
    Reading K (Option α) :=
  match Keyed.find? name members with
  | some doc => some <$> value doc
  | none => .ok none

def require (name : String) : Option α → Reading K α
  | some a => .ok a
  | none => .error (.missingField name)

/-- A variant without content is a name, or an object that gives nothing to that name. -/
def variant (known : List (String × α)) : Json K → Reading K α
  | .str name => choose name
  | .obj [(name, content)] => do
    let a ← choose name
    match content with
    | .null => return a
    | _ => throw .illFormed
  | _ => .error .illFormed
where
  choose (name : String) : Reading K α :=
    match Keyed.find? name known with
    | some a => .ok a
    | none => .error (.unknownVariant name (Keyed.keys known))

end Field
end LifetimeEfficiency
