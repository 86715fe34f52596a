import Peg.Value

/-!
# Numbers of JSON

The value of a number token. Integers keep their value as long as they fit into 64 bits, without a
sign or with one. Other numbers are read approximately: the digits are gathered in a significand of
64 bits, those that do not fit are dropped, and the significand is multiplied or divided by powers
of ten in floating point. A number out of range has no value.
-/

namespace Peg.Json

def maxSignificand : Nat := 0xffffffffffffffff

def maxExponent : Nat := 0x7fffffff

def powerOfTen (n : Nat) : Float := Binary64.ofDecimal 1 n

/-- A significand scaled by a power of ten, in steps of at most `10 ^ 308`; the number of steps needed
is bounded by the size of the exponent. -/
def scaled : Nat → Float → Int → Option Float
  | steps, x, e =>
    if e.natAbs ≤ 308 then
      if 0 ≤ e then
        let y := x * powerOfTen e.natAbs
        if y.isInf then none else some y
      else some (x / powerOfTen e.natAbs)
    else if x == 0 then some x
    else if 0 ≤ e then none
    else
      match steps with
      | 0 => some 0
      | steps + 1 => scaled steps (x / powerOfTen 308) (e + 308)

def fractionDigits : Nat → Int → List Char → Nat × Int
  | significand, e, [] => (significand, e)
  | significand, e, c :: cs =>
    let next := significand * 10 + (c.toNat - '0'.toNat)
    if maxSignificand < next then (significand, e) else fractionDigits next (e - 1) cs

def wholeDigits : Nat → List Char → Nat × Nat
  | significand, [] => (significand, 0)
  | significand, c :: cs =>
    let next := significand * 10 + (c.toNat - '0'.toNat)
    if maxSignificand < next then (significand, cs.length + 1) else wholeDigits next cs

/-- The digits of an exponent, none if it is too large. -/
def exponentDigits : Nat → List Char → Option Nat
  | e, [] => some e
  | e, c :: cs =>
    let next := e * 10 + (c.toNat - '0'.toNat)
    if maxExponent < next then none else exponentDigits next cs

/-- An exponent brought into the range of integers of 32 bits. -/
def clampExponent (e : Int) : Int :=
  if e < -0x80000000 then -0x80000000 else if 0x7fffffff < e then 0x7fffffff else e

/-- The size of a number, from its significand, the exponent due to its digits and the written one. -/
def magnitude? (significand : Nat) (e : Int) (written : List Char) : Option Float :=
  let x := Binary64.ofInt significand
  let steps (e : Int) := e.natAbs / 308 + 1
  match written with
  | [] => scaled (steps e) x e
  | _ :: written =>
    let (negative, digits) := match written with
      | '-' :: digits => (true, digits)
      | '+' :: digits => (false, digits)
      | digits => (false, digits)
    match exponentDigits 0 digits with
    | some n =>
      let e := clampExponent (if negative then e - n else e + n)
      scaled (steps e) x e
    | none => if significand ≠ 0 && !negative then none else some 0

/-- The value of a number token, none if it is out of range. -/
def number? (token : List Char) : Option Value :=
  let (negative, digits) := match token with
    | '-' :: digits => (true, digits)
    | digits => (false, digits)
  let (significand, dropped) := wholeDigits 0 (digits.takeWhile Char.isDigit)
  let rest := digits.dropWhile Char.isDigit
  let signed (x : Float) : Value := .float (if negative then -x else x)
  if rest.isEmpty && dropped = 0 then
    if !negative then some (.int significand)
    else if significand ≠ 0 && fitsInt64 (-significand) then some (.int (-significand))
    else some (signed (Binary64.ofInt significand))
  else
    match rest with
    | '.' :: fraction =>
      let (significand, e) :=
        fractionDigits significand dropped (fraction.takeWhile Char.isDigit)
      (magnitude? significand e (fraction.dropWhile Char.isDigit)).map signed
    | rest => (magnitude? significand dropped rest).map signed

end Peg.Json
