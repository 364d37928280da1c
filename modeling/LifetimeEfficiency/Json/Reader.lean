import LifetimeEfficiency.Decimal.Shortest
import LifetimeEfficiency.Json.Basic
/-!
# Reading JSON

Strict JSON text: one value and nothing after it. The text is cut into tokens first, each of which takes at least one
character, and values are built from the tokens. Text that is not JSON has no value; where it goes wrong is not told.
-/
namespace LifetimeEfficiency.Json

inductive Token
  | openArr
  | closeArr
  | openObj
  | closeObj
  | colon
  | comma
  | null
  | bool (b : Bool)
  | num (negative : Bool) (value : Decimal)
  | str (s : String)

def isBlank (c : Char) : Bool := c == ' ' || c == '\t' || c == '\n' || c == '\r'

def spanDigits (cs : List Char) : List Char × List Char := cs.span Char.isDigit

def digitsValue (ds : List Char) : Nat := ds.foldl (fun n c => 10 * n + (c.toNat - 48)) 0

def readWhole (cs : List Char) : Option (List Char × List Char) :=
  match spanDigits cs with
  | ([], _) => none
  | ('0' :: _ :: _, _) => none
  | found => some found

/-- A point must be followed by a digit; without a point there is no fraction. -/
def readFraction : List Char → Option (List Char × List Char)
  | '.' :: cs =>
    match spanDigits cs with
    | ([], _) => none
    | found => some found
  | cs => some ([], cs)

def readSign : List Char → Bool × List Char
  | '-' :: cs => (true, cs)
  | '+' :: cs => (false, cs)
  | cs => (false, cs)

def readExponent : List Char → Option (Int × List Char)
  | c :: cs =>
    if c == 'e' || c == 'E' then
      let (negative, cs) := readSign cs
      match spanDigits cs with
      | ([], _) => none
      | (ds, rest) => some (if negative then -(digitsValue ds : Int) else digitsValue ds, rest)
    else some (0, c :: cs)
  | [] => some (0, [])

def readMagnitude (cs : List Char) : Option (Decimal × List Char) := do
  let (whole, cs) ← readWhole cs
  let (fraction, cs) ← readFraction cs
  let (exponent, cs) ← readExponent cs
  return (⟨digitsValue (whole ++ fraction), exponent - fraction.length⟩, cs)

def hexValue? (c : Char) : Option Nat :=
  if c.isDigit then some (c.toNat - 48)
  else if 'a' ≤ c && c ≤ 'f' then some (c.toNat - 87)
  else if 'A' ≤ c && c ≤ 'F' then some (c.toNat - 55)
  else none

def readUnit : List Char → Option (Nat × List Char)
  | a :: b :: c :: d :: cs => do
    let a ← hexValue? a
    let b ← hexValue? b
    let c ← hexValue? c
    let d ← hexValue? d
    return (((a * 16 + b) * 16 + c) * 16 + d, cs)
  | _ => none

/-- A character by its code, or by a high and a low half; half of a pair alone is refused. -/
def readCode (cs : List Char) : Option (Char × List Char) := do
  let (high, cs) ← readUnit cs
  if 0xDC00 ≤ high && high < 0xE000 then none
  else if 0xD800 ≤ high && high < 0xDC00 then
    match cs with
    | '\\' :: 'u' :: cs =>
      let (low, cs) ← readUnit cs
      if 0xDC00 ≤ low && low < 0xE000 then
        return (Char.ofNat (0x10000 + (high - 0xD800) * 0x400 + (low - 0xDC00)), cs)
      else none
    | _ => none
  else return (Char.ofNat high, cs)

def readEscape : List Char → Option (Char × List Char)
  | '"' :: cs => some ('"', cs)
  | '\\' :: cs => some ('\\', cs)
  | '/' :: cs => some ('/', cs)
  | 'b' :: cs => some (Char.ofNat 8, cs)
  | 'f' :: cs => some (Char.ofNat 12, cs)
  | 'n' :: cs => some ('\n', cs)
  | 'r' :: cs => some ('\r', cs)
  | 't' :: cs => some ('\t', cs)
  | 'u' :: cs => readCode cs
  | _ => none

/-- The rest of a string after its opening quote; control characters must be escaped. -/
def readString : Nat → List Char → Option (List Char × List Char)
  | 0, _ => none
  | _ + 1, [] => none
  | fuel + 1, c :: cs =>
    if c == '"' then some ([], cs)
    else if c == '\\' then do
      let (c, cs) ← readEscape cs
      let (text, cs) ← readString fuel cs
      return (c :: text, cs)
    else if c.toNat < 32 then none
    else do
      let (text, cs) ← readString fuel cs
      return (c :: text, cs)

def readToken : List Char → Option (Token × List Char)
  | '[' :: cs => some (.openArr, cs)
  | ']' :: cs => some (.closeArr, cs)
  | '{' :: cs => some (.openObj, cs)
  | '}' :: cs => some (.closeObj, cs)
  | ':' :: cs => some (.colon, cs)
  | ',' :: cs => some (.comma, cs)
  | 'n' :: 'u' :: 'l' :: 'l' :: cs => some (.null, cs)
  | 't' :: 'r' :: 'u' :: 'e' :: cs => some (.bool true, cs)
  | 'f' :: 'a' :: 'l' :: 's' :: 'e' :: cs => some (.bool false, cs)
  | '"' :: cs => (readString (cs.length + 1) cs).map fun found => (.str (String.ofList found.1), found.2)
  | '-' :: cs => (readMagnitude cs).map fun found => (.num true found.1, found.2)
  | cs => (readMagnitude cs).map fun found => (.num false found.1, found.2)

def readTokens : Nat → List Char → Option (List Token)
  | 0, _ => none
  | _ + 1, [] => some []
  | fuel + 1, c :: cs =>
    if isBlank c then readTokens fuel cs
    else do
      let (token, rest) ← readToken (c :: cs)
      let tokens ← readTokens fuel rest
      return token :: tokens

variable {K : Type}

mutual

/-- A value whose arrays and objects may be nested less than `depth` deep. -/
def readValue (number : Bool → Decimal → Option K) :
    Nat → Nat → List Token → Option (Json K × List Token)
  | 0, _, _ => none
  | fuel + 1, depth, tokens =>
    match tokens with
    | .null :: ts => some (.null, ts)
    | .bool b :: ts => some (.bool b, ts)
    | .num negative d :: ts => (number negative d).map fun x => (.num x, ts)
    | .str s :: ts => some (.str s, ts)
    | .openArr :: .closeArr :: ts => if depth ≤ 1 then none else some (.arr [], ts)
    | .openArr :: ts =>
      if depth ≤ 1 then none
      else (readItems number fuel (depth - 1) ts).map fun found => (.arr found.1, found.2)
    | .openObj :: .closeObj :: ts => if depth ≤ 1 then none else some (.obj [], ts)
    | .openObj :: ts =>
      if depth ≤ 1 then none
      else (readMembers number fuel (depth - 1) ts).map fun found => (ofMembers found.1, found.2)
    | _ => none

def readItems (number : Bool → Decimal → Option K) :
    Nat → Nat → List Token → Option (List (Json K) × List Token)
  | 0, _, _ => none
  | fuel + 1, depth, tokens => do
    let (item, tokens) ← readValue number fuel depth tokens
    match tokens with
    | .comma :: ts =>
      let (items, ts) ← readItems number fuel depth ts
      return (item :: items, ts)
    | .closeArr :: ts => return ([item], ts)
    | _ => none

def readMembers (number : Bool → Decimal → Option K) :
    Nat → Nat → List Token → Option (List (String × Json K) × List Token)
  | 0, _, _ => none
  | fuel + 1, depth, tokens =>
    match tokens with
    | .str key :: .colon :: ts => do
      let (value, ts) ← readValue number fuel depth ts
      match ts with
      | .comma :: ts =>
        let (members, ts) ← readMembers number fuel depth ts
        return ((key, value) :: members, ts)
      | .closeObj :: ts => return ([(key, value)], ts)
      | _ => none
    | _ => none

end

def read (number : Bool → Decimal → Option K) (depth : Nat) (text : String) : Option (Json K) := do
  let cs := text.toList
  let tokens ← readTokens (cs.length + 1) cs
  let (value, rest) ← readValue number (2 * tokens.length + 1) depth tokens
  if rest.isEmpty then some value else none

/-- A number too large for a double is refused. -/
def finite? (negative : Bool) (d : Decimal) : Option Float :=
  let x := Decimal.toFloat negative d
  if x.isFinite then some x else none

def documentDepth : Nat := 128

def readDocument (text : String) : Option (Json Float) := read finite? documentDepth text

end LifetimeEfficiency.Json
