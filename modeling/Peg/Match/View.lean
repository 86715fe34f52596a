import Peg.Match.Reading

/-!
# Matches as parts of a buffer

A node of a match tree need not be built before it is asked for: it is enough to know between which
indices of the buffer its events stand and at which offset it begins. The events of other matches may
stand around them. `View.children?` finds the nodes below in one scan, with a stack of the rules that
are open.
-/

namespace Peg

structure View where
  events : Array Event
  /-- Where the outermost rule of the node opens. -/
  start : Nat
  /-- Where the first rule opens that is no wrapper. -/
  primary : Nat
  /-- Where the outermost rule tells its length. -/
  last : Nat
  /-- The byte offset where the match begins. -/
  offset : Nat

namespace View

/-- The first index from `i` on where no wrapper opens. -/
def pastWrappers (lib : Library) (events : Array Event) (i : Nat) : Nat :=
  if h : i < events.size then
    match events[i] with
    | .opened r => if lib.isWrapper r then pastWrappers lib events (i + 1) else i
    | _ => i
  else i
termination_by events.size - i

/-- The node whose events stand from `start` to `last`. -/
def ofRange (lib : Library) (events : Array Event) (start last offset : Nat) : View :=
  { events, start, primary := pastWrappers lib events start, last, offset }

def ofEvents (lib : Library) (events : Array Event) (offset : Nat) : View :=
  ofRange lib events 0 (events.size - 1) offset

/-- The wrappers of the node from the outside in, and the rule inside them. -/
def chain (v : View) : List RuleRef :=
  (v.events.extract v.start (v.primary + 1)).toList.filterMap Event.rule?

def rule? (v : View) : Option RuleRef := v.events[v.primary]?.bind Event.rule?

def length? (v : View) : Option Nat := v.events[v.last]?.bind Event.bytes?

def ownEvents (v : View) : Array Event := v.events.extract v.start (v.last + 1)

/-- Goes over the events from `i` up to `close`. The stack tells of every open rule where it opened
and at which offset, the innermost first, and `offset` is where the next rule begins. A rule that
closes when no other is open is a node of its own. -/
def scan (lib : Library) (events : Array Event) (close i offset : Nat) (opened : List (Nat × Nat))
    (found : List View) : Option (List View) :=
  if i < close then
    match events[i]? with
    | some (.opened _) => scan lib events close (i + 1) offset ((i, offset) :: opened) found
    | some .closed =>
      match opened, events[i + 1]?.bind Event.bytes? with
      | (start, before) :: opened, some n =>
        let found :=
          if opened.isEmpty then ofRange lib events start (i + 1) before :: found else found
        scan lib events close (i + 2) (before + n) opened found
      | _, _ => none
    | _ => none
  else some found.reverse
termination_by close - i

/-- The nodes directly below, none if the events are not those of a match. Every wrapper has opened
before the rule inside it and closes behind it with two events. -/
def children? (lib : Library) (v : View) : Option (List View) :=
  scan lib v.events (v.last - 2 * (v.primary - v.start) - 1) (v.primary + 1) v.offset [] []

end View

end Peg
