import LifetimeEfficiency.Decimal.Shortest
/-!
# Numbers in text

Ways of writing the shortest digits of a double: positional throughout, or in one of two styles that split off the exponent of
numbers that are very small or very large.
-/
namespace LifetimeEfficiency.Decimal

def dropZeros : Nat → Decimal → Decimal
  | 0, d => d
  | fuel + 1, d =>
    if d.digits ≠ 0 && d.digits % 10 = 0 then dropZeros fuel ⟨d.digits / 10, d.exponent + 1⟩ else d

def digitText (d : Decimal) : List Char := Nat.toDigits 10 d.digits

def positional (d : Decimal) : String :=
  let ds := d.digitText
  if 0 ≤ d.exponent then
    String.ofList (ds ++ List.replicate (if d.digits = 0 then 0 else d.exponent.toNat) '0')
  else
    let places := (-d.exponent).toNat
    let padded := List.replicate (places + 1 - ds.length) '0' ++ ds
    let whole := padded.length - places
    String.ofList (padded.take whole ++ '.' :: padded.drop whole)

def leading (d : Decimal) : Int := d.exponent + (d.digitText.length - 1 : Nat)

def exponential (plus : Bool) (d : Decimal) : String :=
  let mantissa := String.ofList (match d.digitText with
    | [] => []
    | [c] => [c]
    | c :: cs => c :: '.' :: cs)
  let sign := if plus && 0 ≤ d.leading then "+" else ""
  s!"{mantissa}e{sign}{d.leading}"

/-- Writes a number by its sign and the shortest digits of its magnitude, in the given notation. -/
def write (tie : Tie) (digits : Decimal → String) (x : Float) : String :=
  if x.isNaN then "NaN"
  else
    let magnitude := if x.isInf then "inf" else digits (dropZeros 20 (shortest tie x))
    if Binary64.isNegative x then "-" ++ magnitude else magnitude

def hasPoint (s : String) : Bool := s.toList.contains '.'

def withPoint (s : String) : String := if hasPoint s then s else s ++ ".0"

/-- Never an exponent, and no point on whole numbers. -/
def plain (x : Float) : String := write .up positional x

/-- Numbers whose first digit has an exponent from `least` to `greatest` are positional and have a point; the others
have an exponent, with or without a plus sign. Of two equally near decimals the text shows the one that `tie` says. -/
structure Style where
  least : Int
  greatest : Int
  plus : Bool
  tie : Tie

def Style.digits (style : Style) (d : Decimal) : String :=
  if style.least ≤ d.leading && d.leading ≤ style.greatest then withPoint (positional d)
  else exponential style.plus d

def Style.text (style : Style) (x : Float) : String := write style.tie style.digits x

/-- How the state of a parameter shows its value. -/
def technical (x : Float) : String := Style.text ⟨-4, 15, false, .up⟩ x

/-- How a message about a document shows a number. -/
def documentary (x : Float) : String := Style.text ⟨-5, 15, true, .even⟩ x

end LifetimeEfficiency.Decimal
