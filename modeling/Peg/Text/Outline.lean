import Peg.Text.Quoted

/-!
# Outlines of values

The one-line form in which structures are shown: a name with its fields in braces or its arguments
in parentheses, lists in brackets, sets in braces, optional values as `Some(x)` or `None`.
-/

namespace Peg.Text.Outline

def record (name : String) (fields : List (String × String)) : String :=
  name ++ " \x7b " ++ ", ".intercalate (fields.map fun (field, value) => field ++ ": " ++ value)
    ++ " \x7d"

def tuple (name : String) (args : List String) : String :=
  name ++ "(" ++ ", ".intercalate args ++ ")"

def list (items : List String) : String := "[" ++ ", ".intercalate items ++ "]"

def set (items : List String) : String := "\x7b" ++ ", ".intercalate items ++ "\x7d"

def option : Option String → String
  | none => "None"
  | some item => tuple "Some" [item]

def bool (b : Bool) : String := if b then "true" else "false"

def nat (n : Nat) : String := toString n

end Peg.Text.Outline
