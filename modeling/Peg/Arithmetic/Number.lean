import Peg.Value

/-!
# Numbers that stay integers while they can

Operations on integers of 64 bits give integers as long as the result is exact and fits. Anything
else is computed in floating point.
-/

namespace Peg.Arithmetic

inductive Operator where
  | add
  | sub
  | mul
  | div
  | rem
deriving DecidableEq

def Operator.ofText? : String → Option Operator
  | "+" => some .add
  | "-" => some .sub
  | "*" => some .mul
  | "/" => some .div
  | "%" => some .rem
  | _ => none

inductive Number where
  | int (n : Int)
  | float (x : Float)

def int64? (n : Int) : Option Int := if fitsInt64 n then some n else none

/-- The remainder with the sign of `a`, none where the quotient does not exist or does not fit. -/
def remainder? (a b : Int) : Option Int :=
  if b = 0 || !fitsInt64 (a.tdiv b) then none else some (a.tmod b)

/-- The result of an operation on integers, none if it is not exact or does not fit. -/
def integral? : Operator → Int → Int → Option Int
  | .add, a, b => int64? (a + b)
  | .sub, a, b => int64? (a - b)
  | .mul, a, b => int64? (a * b)
  | .div, a, b => if remainder? a b = some 0 then some (a.tdiv b) else none
  | .rem, a, b => remainder? a b

def inexact : Operator → Float → Float → Float
  | .add, x, y => x + y
  | .sub, x, y => x - y
  | .mul, x, y => x * y
  | .div, x, y => x / y
  | .rem, x, y => Binary64.remainder x y

namespace Number

/-- The number of a value; one that is no number is not a number. -/
def ofValue (v : Value) : Number :=
  match v.toInt64? with
  | some n => int n
  | none => float (v.toFloat?.getD (0 / 0))

def toFloat : Number → Float
  | int n => Binary64.ofInt n
  | float x => x

def toValue : Number → Value
  | int n => .int n
  | float x => .ofFloat x

def apply (op : Operator) (a b : Number) : Number :=
  let result? : Option Int :=
    match a, b with
    | int a, int b => integral? op a b
    | _, _ => none
  match result? with
  | some n => int n
  | none => float (inexact op a.toFloat b.toFloat)

end Number

/-- The number written by digits with an optional fraction and exponent. -/
def literal (text : List Char) : Number :=
  let digitsOf (cs : List Char) : Nat := cs.foldl (fun n c => n * 10 + (c.toNat - '0'.toNat)) 0
  let whole := text.takeWhile Char.isDigit
  let rest := text.dropWhile Char.isDigit
  if rest.isEmpty && fitsInt64 (digitsOf whole) then .int (digitsOf whole)
  else
    let (fraction, rest) := match rest with
      | '.' :: rest => (rest.takeWhile Char.isDigit, rest.dropWhile Char.isDigit)
      | rest => ([], rest)
    let exponent : Int := match rest with
      | _ :: '-' :: digits => -digitsOf digits
      | _ :: '+' :: digits => digitsOf digits
      | _ :: digits => digitsOf digits
      | [] => 0
    .float (Binary64.ofDecimal (digitsOf (whole ++ fraction)) (exponent - fraction.length))

end Peg.Arithmetic
