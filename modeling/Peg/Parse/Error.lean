import Peg.Text.Outline
import Peg.Text.Position

/-!
# Parse errors

Why a parse failed and where, with the line of the text to show. The report prints the line under its
number and a caret below the column of the failure.
-/

namespace Peg

inductive ParseErrorKind where
  | noMatch
  | incomplete
  | callLimit
  | depthLimit
  | invalidOffset
  | unknownRule (name : String)
deriving DecidableEq

namespace ParseErrorKind

def message : ParseErrorKind → String
  | noMatch => "no match for the root rule"
  | incomplete => "input was not fully consumed"
  | callLimit => "call limit reached"
  | depthLimit => "depth limit reached"
  | invalidOffset => "start offset is not a valid position in the input"
  | unknownRule name => "rule " ++ name ++ " is undefined"

def label : ParseErrorKind → String
  | noMatch => "NoMatch"
  | incomplete => "Incomplete"
  | callLimit => "CallLimit"
  | depthLimit => "DepthLimit"
  | invalidOffset => "InvalidOffset"
  | unknownRule _ => "UnknownRule"

def outline : ParseErrorKind → String
  | unknownRule name => Text.Outline.tuple "UnknownRule" [Text.quote name]
  | kind => kind.label

end ParseErrorKind

structure ParseError where
  kind : ParseErrorKind
  failureOffset : Nat
  /-- The line of the failure, counted from one. -/
  lineNumber : Nat
  /-- The characters of the line before the failure. -/
  columnOffset : Nat
  lineText : String
deriving DecidableEq

namespace ParseError

/-- The error at an offset of a text. -/
def ofOffset (kind : ParseErrorKind) (source : List Char) (offset : Nat) : ParseError :=
  match Position.at? source offset with
  | some position =>
    { kind, failureOffset := offset, lineNumber := position.lineColumn.1,
      columnOffset := position.lineColumn.2 - 1, lineText := String.ofList position.line }
  | none => { kind, failureOffset := offset, lineNumber := 1, columnOffset := 0, lineText := "" }

/-- A caret under the column of the failure; tabs of the line are kept before it. -/
def pointer (e : ParseError) : String :=
  String.ofList
    ((e.lineText.toList.take e.columnOffset).map (fun c => if c = '\t' then '\t' else ' ') ++ ['^'])

/-- The error with its line and the caret below it. -/
def report (e : ParseError) : String :=
  let number := toString e.lineNumber
  let margin := String.ofList (List.replicate number.length ' ')
  margin ++ "--> " ++ number ++ ":" ++ toString (e.columnOffset + 1) ++ "\n"
    ++ margin ++ " |\n"
    ++ number ++ " | " ++ e.lineText ++ "\n"
    ++ margin ++ " | " ++ e.pointer ++ "\n"
    ++ margin ++ " |\n"
    ++ margin ++ " = " ++ e.kind.message

open Text.Outline in
def outline (e : ParseError) : String :=
  record "ParseError"
    [("kind", e.kind.outline), ("failure_offset", nat e.failureOffset),
      ("line_number", nat e.lineNumber), ("column_offset", nat e.columnOffset),
      ("line_text", Text.quote e.lineText)]

end ParseError

end Peg
