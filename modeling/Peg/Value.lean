import Peg.Binary64

/-!
# Values

What a match evaluates to: the values of JSON, with integers apart from floating-point numbers.
Objects are kept sorted by key, and a later entry replaces an earlier one of the same key.
-/

namespace Peg

inductive Value where
  | null
  | bool (b : Bool)
  | int (n : Int)
  | float (x : Float)
  | string (s : String)
  | array (items : List Value)
  | object (fields : List (String × Value))

def minInt64 : Int := -0x8000000000000000

def maxInt64 : Int := 0x7fffffffffffffff

/-- Whether an integer fits into 64 bits with a sign. -/
def fitsInt64 (n : Int) : Bool := minInt64 ≤ n && n ≤ maxInt64

/-- Enters a field into a sorted list of fields. -/
def insertField (key : String) (value : Value) : List (String × Value) → List (String × Value)
  | [] => [(key, value)]
  | (k, v) :: fields =>
    if key < k then (key, value) :: (k, v) :: fields
    else if key = k then (key, value) :: fields
    else (k, v) :: insertField key value fields

namespace Value

/-- A floating-point number, which has to be finite; any other is `null`. -/
def ofFloat (x : Float) : Value := if x.isFinite then float x else null

def ofFields (fields : List (String × Value)) : Value :=
  object (fields.foldl (fun sorted (key, value) => insertField key value sorted) [])

def toInt64? : Value → Option Int
  | int n => if fitsInt64 n then some n else none
  | _ => none

def toFloat? : Value → Option Float
  | int n => some (Binary64.ofInt n)
  | float x => some x
  | _ => none

end Value

end Peg
