import Peg.Json.Document
import Peg.Match.Query
import Peg.Text.Outline

/-!
# Printed matches

Match trees as indented lines, as JSON and on one line.
-/

namespace Peg.Match

/-- The names of a match separated by commas. -/
def shownNames (m : Match) : String :=
  if m.names.isEmpty then "<anonymous>" else ",".intercalate m.names

/-- The line of a match: names, offsets and text. -/
def line (m : Match) : String :=
  m.shownNames ++ " " ++ toString m.offset ++ ".." ++ toString m.finish ++ " " ++ Text.quote m.text

mutual

def dumpAt (indent : String) : Match → String
  | mk node call children =>
    indent ++ (mk node call children).line ++ "\n" ++ dumpAll (indent ++ "  ") children

def dumpAll (indent : String) : List Match → String
  | [] => ""
  | m :: ms => dumpAt indent m ++ dumpAll indent ms

end

def dump (m : Match) : String := dumpAt "" m

mutual

/-- Offsets, names, and either the children or, where there are none, the text. -/
def document : Match → Json.Document
  | mk node call children =>
    let m := mk node call children
    .object
      [("pos", .array [.number m.offset, .number m.finish]),
        ("names", .array (m.names.map .string)),
        ("inner", if children.isEmpty then .string m.text else .array (documents children))]

def documents : List Match → List Json.Document
  | [] => []
  | m :: ms => m.document :: documents ms

end

def toJson (m : Match) : String := m.document.pretty

open Text.Outline in
mutual

def outline : Match → String
  | mk node call children =>
    let m := mk node call children
    record "Match"
      [("names", list (m.names.map Text.quote)), ("offset", nat m.offset),
        ("text", Text.quote m.text), ("matches", list (outlines children))]

def outlines : List Match → List String
  | [] => []
  | m :: ms => m.outline :: outlines ms

end

end Peg.Match
