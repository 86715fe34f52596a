/-!
# Binary floating-point numbers of 64 bits

Rounding of exact quotients to the nearest floating-point number, ties going to the even neighbour,
and the remainder of a division, which is exact. Both are computed on natural numbers: a finite
number is `m * 2 ^ e` with `m < hiddenUnit * 2` and `-1074 ≤ e`, and for such `m` and `e`, with
`hiddenUnit ≤ m` unless `e = -1074`, its bits below the sign are `(e + 1074) * hiddenUnit + m`.
-/

namespace Peg.Binary64

def twoTo (k : Nat) : Nat := 1 <<< k

/-- The unit of the leading bit, which is left out of the 52 bits of a normal significand. -/
def hiddenUnit : Nat := 0x10000000000000

/-- The unit of the sign bit. -/
def signUnit : Nat := 0x8000000000000000

def infinityBits : Nat := 0x7ff0000000000000

/-- The quotient of natural numbers rounded to the nearest one, a half to the even neighbour. -/
def roundQuotient (num den : Nat) : Nat :=
  let q := num / den
  let r := num % den
  if 2 * r < den || (2 * r == den && q % 2 == 0) then q else q + 1

def scale (num den : Nat) (e : Int) : Nat × Nat :=
  if 0 ≤ e then (num, den * twoTo e.toNat) else (num * twoTo (-e).toNat, den)

/-- The exponent with which a positive quotient is written, its lowest place. -/
def exponentOf (num den : Nat) : Int :=
  let e : Int := (num.log2 : Int) - den.log2 - 52
  let (n, d) := scale num den e
  let e := if n < d * hiddenUnit then e - 1 else e
  if e < -1074 then -1074 else e

def bitsOfQuotient (num den : Nat) : Nat :=
  if num = 0 then 0
  else
    let e := exponentOf num den
    let (n, d) := scale num den e
    let bits := (e + 1074).toNat * hiddenUnit + roundQuotient n d
    if infinityBits ≤ bits then infinityBits else bits

def ofQuotient (negative : Bool) (num den : Nat) : Float :=
  Float.ofBits (UInt64.ofNat ((if negative then signUnit else 0) + bitsOfQuotient num den))

def ofInt (n : Int) : Float := ofQuotient (n < 0) n.natAbs 1

def tenTo (k : Nat) : Nat := Nat.pow 10 k

/-- The floating-point number nearest to `m * 10 ^ e`. Exponents far beyond the range of
floating-point numbers are not computed. -/
def ofDecimal (m : Nat) (e : Int) : Float :=
  let magnitude : Int := (Nat.toDigits 10 m).length + e
  if m = 0 || magnitude < -400 then 0
  else if 400 < magnitude then Float.ofBits (UInt64.ofNat infinityBits)
  else if 0 ≤ e then ofQuotient false (m * tenTo e.toNat) 1
  else ofQuotient false m (tenTo (-e).toNat)

/-- The sign, `m` and `e` of a finite number `m * 2 ^ e`. -/
def decompose (x : Float) : Bool × Nat × Int :=
  let bits := x.toBits.toNat
  let negative := signUnit ≤ bits
  let fraction := bits % hiddenUnit
  let biased := bits % signUnit / hiddenUnit
  if biased = 0 then (negative, fraction, -1074)
  else (negative, fraction + hiddenUnit, (biased : Int) - 1075)

/-- The remainder of a division rounded toward zero, with the sign of the dividend. -/
def remainder (x y : Float) : Float :=
  if x.isNaN || y.isNaN || x.isInf || y == 0 then 0 / 0
  else if y.isInf then x
  else
    let (negative, m, e) := decompose x
    let (_, n, f) := decompose y
    let low := if e ≤ f then e else f
    let r := m * twoTo (e - low).toNat % (n * twoTo (f - low).toNat)
    let (num, den) := scale r 1 (-low)
    ofQuotient negative num den

end Peg.Binary64
