import Peg.Text.Quoted

/-!
# JSON documents

Documents of numbers, strings, arrays and objects with their fields in a given order, and their
printed form: two blanks of indentation per level, one item or field per line. In strings the quote,
the backslash and the control characters below the blank are escaped.
-/

namespace Peg.Json

inductive Document where
  | number (n : Nat)
  | string (s : String)
  | array (items : List Document)
  | object (fields : List (String × Document))

namespace Document

def escape (c : Char) : String :=
  if c = '"' then "\\\""
  else if c = '\\' then "\\\\"
  else if c = '\n' then "\\n"
  else if c = '\r' then "\\r"
  else if c = '\t' then "\\t"
  else if c = '\x08' then "\\b"
  else if c = '\x0c' then "\\f"
  else if c < ' ' then "\\u00" ++ (if c < '\x10' then "0" else "") ++ Text.hex c.toNat
  else String.singleton c

def quote (s : String) : String := s.foldl (fun out c => out ++ escape c) "\"" ++ "\""

def indent (level : Nat) : String := String.ofList (List.replicate (2 * level) ' ')

/-- Items between brackets, each on a line of its own. -/
def block (opening closing : String) (level : Nat) (items : List String) : String :=
  if items.isEmpty then opening ++ closing
  else
    opening ++ "\n" ++ ",\n".intercalate (items.map (indent (level + 1) ++ ·)) ++ "\n"
      ++ indent level ++ closing

mutual

/-- The printed form of a document inside `level` others. -/
def prettyAt (level : Nat) : Document → String
  | number n => toString n
  | string s => quote s
  | array items => block "[" "]" level (prettyItems (level + 1) items)
  | object fields => block "\x7b" "\x7d" level (prettyFields (level + 1) fields)

def prettyItems (level : Nat) : List Document → List String
  | [] => []
  | d :: ds => prettyAt level d :: prettyItems level ds

def prettyFields (level : Nat) : List (String × Document) → List String
  | [] => []
  | (key, d) :: fields => (quote key ++ ": " ++ prettyAt level d) :: prettyFields level fields

end

def pretty (d : Document) : String := prettyAt 0 d

end Document

end Peg.Json
