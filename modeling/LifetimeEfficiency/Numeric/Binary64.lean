/-!
# Binary64

Finite doubles as whole multiples of powers of two, and the way back: an exact ratio goes to the nearest double, a tie to
the even one. Everything that must be rounded once, such as a fused product and sum, passes through here.
-/
namespace LifetimeEfficiency.Binary64

/-- The quotient `n / d` as a whole number; a half goes to the even neighbour. -/
def roundDiv (n d : Nat) : Nat :=
  let q := n / d
  let r := n % d
  if d < 2 * r || (2 * r == d && q % 2 == 1) then q + 1 else q

/-- The pair `(m, e)` with `|x| = m * 2 ^ e`. -/
def magnitude (x : Float) : Nat × Int :=
  let bits := x.toBits.toNat
  let fraction : Nat := bits % Nat.pow 2 52
  let biased : Nat := bits / Nat.pow 2 52 % Nat.pow 2 11
  if biased = 0 then (fraction, -1074) else (fraction + Nat.pow 2 52, (biased : Int) - 1075)

def isNegative (x : Float) : Bool := x.toBits.toNat / Nat.pow 2 63 == 1

/-- The numerator and the denominator of `|x|`, one of which is a power of two. -/
def ratio (x : Float) : Nat × Nat :=
  let (m, e) := magnitude x
  (m * Nat.pow 2 e.toNat, Nat.pow 2 (-e).toNat)

def rescale (n d : Nat) (q : Int) : Nat × Nat := (n * Nat.pow 2 (-q).toNat, d * Nat.pow 2 q.toNat)

/-- The largest `e` with `2 ^ e ≤ n / d`, for positive `n` and `d`. -/
def floorLog2 (n d : Nat) : Int :=
  let e : Int := (n.log2 : Int) - d.log2
  let (n', d') := rescale n d e
  if d' ≤ n' then e else e - 1

/-- The double `m * 2 ^ q` for `m ≤ 2 ^ 53`, where `m < 2 ^ 52` only if `q` is least. -/
def encode (negative : Bool) (m : Nat) (q : Int) : Float :=
  let (m, q) := if m = Nat.pow 2 53 then (Nat.pow 2 52, q + 1) else (m, q)
  let biased := if m < Nat.pow 2 52 then 0 else (q + 1075).toNat
  let bits := if 2047 ≤ biased then 2047 * Nat.pow 2 52 else biased * Nat.pow 2 52 + m % Nat.pow 2 52
  Float.ofBits (UInt64.ofNat ((if negative then Nat.pow 2 63 else 0) + bits))

/-- The double nearest to `n / d`; beyond the largest one it is infinite. -/
def ofRatio (negative : Bool) (n d : Nat) : Float :=
  if n = 0 then encode negative 0 (-1074)
  else
    let q := max (floorLog2 n d - 52) (-1074)
    let (n', d') := rescale n d q
    encode negative (roundDiv n' d') q

def ofScaled (m e : Int) : Float :=
  ofRatio (m < 0) (m.natAbs * Nat.pow 2 e.toNat) (Nat.pow 2 (-e).toNat)

def scaled (x : Float) : Int × Int :=
  let (m, e) := magnitude x
  (if isNegative x then -(m : Int) else m, e)

/-- The value of `a * b + c`, rounded once; a sum of nothing keeps the sign that two roundings give it. -/
def mulAdd (a b c : Float) : Float :=
  if !(a.isFinite && b.isFinite) then a * b + c
  else if !c.isFinite then c
  else
    let (ma, ea) := scaled a
    let (mb, eb) := scaled b
    let (mc, ec) := scaled c
    let e := min (ea + eb) ec
    let m := ma * mb * Int.pow 2 (ea + eb - e).toNat + mc * Int.pow 2 (ec - e).toNat
    if m = 0 then a * b + c else ofScaled m e

end LifetimeEfficiency.Binary64
