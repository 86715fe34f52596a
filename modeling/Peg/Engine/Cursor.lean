import Peg.Engine.Limits
import Peg.Text.Place

/-!
# Cursors

The state of reading a text: where reading began, where it is now, the furthest point that a match
has reached, and what is left of the limits.
-/

namespace Peg

structure Cursor where
  source : List Char
  start : Place
  place : Place
  /-- The furthest offset at which a match has ended. -/
  furthest : Nat
  calls : CallBudget := {}
  nesting : Nesting := { limit := defaultMaxDepth }
deriving DecidableEq

namespace Cursor

def ofPlace (source : List Char) (place : Place) : Cursor :=
  { source, start := place, place, furthest := place.offset }

def new (source : List Char) : Cursor := ofPlace source (.start source)

/-- A cursor at an offset of a text, none if the offset is no place of the text. -/
def at? (source : List Char) (offset : Nat) : Option Cursor :=
  (Place.at? source offset).map (ofPlace source)

def withCallLimit (c : Cursor) (limit : Option Nat) : Cursor := { c with calls := { limit } }

def withMaxDepth (c : Cursor) (limit : Nat) : Cursor := { c with nesting := { limit } }

def offset (c : Cursor) : Nat := c.place.offset

def moveTo (c : Cursor) (place : Place) : Cursor := { c with place }

def advanceTo (c : Cursor) (place : Place) : Cursor :=
  { c with place, furthest := max c.furthest place.offset }

/-- Whether a limit was exceeded, after which failures say nothing about the rules. -/
def reachedLimit (c : Cursor) : Bool := c.calls.exceeded || c.nesting.exceeded

/-- The cursor as it was at first, limits included. -/
def reset (c : Cursor) : Cursor :=
  { c with
    place := c.start
    furthest := c.start.offset
    calls := c.calls.fresh
    nesting := c.nesting.fresh }

open Text.Outline in
def outline (c : Cursor) : String :=
  record "Cursor"
    [("input", Text.quote (String.ofList c.source)), ("start", nat c.start.offset),
      ("pos", nat c.offset), ("max_offset", nat c.furthest),
      ("call_tracker", c.calls.outline), ("depth_tracker", c.nesting.outline)]

end Cursor

end Peg
