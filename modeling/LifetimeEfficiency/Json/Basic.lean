import LifetimeEfficiency.Keyed
/-!
# JSON values

Values over any kind of number. An object lists its members by key, in order and each key once, so that members are always
visited in the same order however the text had them.
-/
namespace LifetimeEfficiency

inductive Json (K : Type)
  | null
  | bool (b : Bool)
  | num (x : K)
  | str (s : String)
  | arr (items : List (Json K))
  | obj (members : List (String × Json K))

/-- The object with the given members; of two with one key the later one counts. -/
def Json.ofMembers {K : Type} (members : List (String × Json K)) : Json K :=
  .obj (Keyed.ofList members)

namespace Json

variable {K L : Type}

mutual

def map (f : K → L) : Json K → Json L
  | .null => .null
  | .bool b => .bool b
  | .num x => .num (f x)
  | .str s => .str s
  | .arr items => .arr (mapItems f items)
  | .obj members => .obj (mapMembers f members)

def mapItems (f : K → L) : List (Json K) → List (Json L)
  | [] => []
  | item :: items => map f item :: mapItems f items

def mapMembers (f : K → L) : List (String × Json K) → List (String × Json L)
  | [] => []
  | (key, value) :: members => (key, map f value) :: mapMembers f members

end

end Json
end LifetimeEfficiency
