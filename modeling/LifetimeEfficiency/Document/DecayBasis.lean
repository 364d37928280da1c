import LifetimeEfficiency.Document.Fields
import LifetimeEfficiency.Resolution.DecayBasis
/-!
# Documents of decay bases

A basis is an object that carries its type beside the numbers that the type has, or an array of the type and the
numbers. The type is looked at before any number.
-/
namespace LifetimeEfficiency.DecayBasis

variable {K : Type}

/-- A type of basis: a single value, or what is made of one or two named numbers. -/
inductive Variant (K : Type)
  | plain (basis : DecayBasis K)
  | one (field : String) (make : K → DecayBasis K)
  | two (first second : String) (make : K → K → DecayBasis K)

def variants : List (String × Variant K) :=
  [("NoBasis", .plain .flat),
    ("Exp", .one "tau" .exp),
    ("Sin", .two "tau" "omega" .sin),
    ("Cos", .two "tau" "omega" .cos),
    ("Sinh", .two "tau" "delta_gamma" .sinh),
    ("Cosh", .two "tau" "delta_gamma" .cosh)]

def variantOf (tag : Json K) : Reading K (Variant K) := do
  let name ← tag.text
  match Keyed.find? name variants with
  | some v => return v
  | none => throw (.unknownVariant name (Keyed.keys (variants (K := K))))

def readTwo (members : List (String × Json K)) (a b : String) : Reading K (Option K × Option K) := do
  if a < b then
    let x ← Field.read members a Json.number
    let y ← Field.read members b Json.number
    return (x, y)
  else
    let y ← Field.read members b Json.number
    let x ← Field.read members a Json.number
    return (x, y)

def ofMembers (members : List (String × Json K)) : Variant K → Reading K (DecayBasis K)
  | .plain basis => return basis
  | .one field make => do
    let x ← Field.read members field Json.number
    return make (← Field.require field x)
  | .two first second make => do
    let (x, y) ← readTwo members first second
    let x ← Field.require first x
    return make x (← Field.require second y)

def ofItems : List (Json K) → Variant K → Reading K (DecayBasis K)
  | [], .plain basis => return basis
  | [a], .one _ make => return make (← a.number)
  | [a, b], .two _ _ make => do
    let x ← a.number
    return make x (← b.number)
  | _, _ => throw .illFormed

def ofJson : Json K → Reading K (DecayBasis K)
  | .obj members => do
    match Keyed.find? "basis_type" members with
    | some tag => ofMembers members (← variantOf tag)
    | none => throw (.missingField "basis_type")
  | .arr [] => throw (.missingField "basis_type")
  | .arr (tag :: items) => do ofItems items (← variantOf tag)
  | _ => throw .illFormed

def toJson : DecayBasis K → Json K
  | .flat => tagged "NoBasis" []
  | .exp tau => tagged "Exp" [("tau", tau)]
  | .sin tau omega => tagged "Sin" [("tau", tau), ("omega", omega)]
  | .cos tau omega => tagged "Cos" [("tau", tau), ("omega", omega)]
  | .sinh tau deltaGamma => tagged "Sinh" [("tau", tau), ("delta_gamma", deltaGamma)]
  | .cosh tau deltaGamma => tagged "Cosh" [("tau", tau), ("delta_gamma", deltaGamma)]
where
  tagged (name : String) (numbers : List (String × K)) : Json K :=
    .ofMembers (("basis_type", .str name) :: numbers.map fun kx => (kx.1, .num kx.2))

end LifetimeEfficiency.DecayBasis
