import Peg.Text.Outline
import Peg.Text.Place

/-!
# Lines and columns

Lines end with a line feed, with or without a carriage return before it. Columns count characters.
Between the two characters of a carriage return and a line feed the carriage return still counts as
a character of the old line.
-/

namespace Peg

/-- Line and column after a text that begins at `line` and `col`, both counted from one. -/
def lineColumnFrom : Nat → Nat → List Char → Nat × Nat
  | line, col, [] => (line, col)
  | line, _, '\r' :: '\n' :: cs => lineColumnFrom (line + 1) 1 cs
  | line, col, c :: cs =>
    if c = '\n' then lineColumnFrom (line + 1) 1 cs else lineColumnFrom line (col + 1) cs

/-- A valid offset of a text, known by what stands before and after it. -/
structure Position where
  before : List Char
  after : List Char
deriving DecidableEq, Repr

namespace Position

/-- The position at an offset, none if the offset is no place of the text. -/
def at? (text : List Char) (offset : Nat) : Option Position :=
  (Place.at? text offset).map fun place => ⟨takeBytes offset text, place.rest⟩

def offset (p : Position) : Nat := byteLength p.before

def lineColumn (p : Position) : Nat × Nat := lineColumnFrom 1 1 p.before

/-- The line the position is on, without the line feed or carriage return and line feed that end it. -/
def line (p : Position) : List Char :=
  let whole := (p.before.reverse.takeWhile (· ≠ '\n')).reverse ++ p.after.takeWhile (· ≠ '\n')
  if whole.getLast? = some '\r' then whole.dropLast else whole

def outline (p : Position) : String := Text.Outline.record "Position" [("pos", Text.Outline.nat p.offset)]

end Position

end Peg
