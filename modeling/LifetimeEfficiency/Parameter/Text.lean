import LifetimeEfficiency.Parameter.Basic
import LifetimeEfficiency.Characters.Hidden
/-!
# Parameters in text

A one-line description of a parameter. Its name is quoted, with escapes for quotes, backslashes, control characters and whatever
else would not be seen.
-/
namespace LifetimeEfficiency

namespace Quoted

def hexDigits (n : Nat) : List Char := Nat.toDigits 16 n

def escape (c : Char) : List Char :=
  if c == '"' then ['\\', '"']
  else if c == '\\' then ['\\', '\\']
  else if c == '\n' then ['\\', 'n']
  else if c == '\t' then ['\\', 't']
  else if c == '\r' then ['\\', 'r']
  else if c.toNat = 0 then ['\\', '0']
  else if c.toNat < 32 || c.toNat = 127 || isHidden c then ['\\', 'u', '{'] ++ hexDigits c.toNat ++ ['}']
  else [c]

def quote (s : String) : String := String.ofList ('"' :: s.toList.flatMap escape ++ ['"'])

end Quoted

def ParameterState.describe {K : Type} (text : K → String) (s : ParameterState K) : String :=
  let name := Quoted.quote s.name
  "Parameter \x7b " ++ s!"name: {name}, value: {text s.value}, constant: {s.constant}" ++ " \x7d"

end LifetimeEfficiency
