import Peg.Engine.Session

/-!
# Writing events while running

A run may write the events of its matches into one shared buffer as it goes. A rule opens before its
parts are run, so what a part that failed has left behind must be cut off again, and the memo keeps
copies of the pieces of the buffer that matches wrote. `Library.write` is `Library.run` in this form,
and `Tape.perform` takes the steps of a session with it.
-/

namespace Peg

/-- A memo that keeps events in place of derivations. -/
structure Recording where
  /-- The events of the recorded matches by rule and offset, failures being none. -/
  table : Std.HashMap (RuleRef × Nat) (Option (Array Event)) := {}
  stats : MemoStats := {}

namespace Recording

def outcome? (m : Recording) (r : RuleRef) (offset : Nat) : Option (Option (Array Event)) :=
  m.table[(r, offset)]?

def record : Recording → RuleRef → Nat → Option (Array Event) → Recording
  | ⟨table, stats⟩, r, offset, outcome => ⟨table.insert (r, offset) outcome, stats⟩

def countHit (m : Recording) : Recording :=
  { m with stats := { m.stats with hits := m.stats.hits + 1 } }

def countFailureHit (m : Recording) : Recording :=
  { m with stats := { m.stats with failureHits := m.stats.failureHits + 1 } }

def countMiss (m : Recording) : Recording :=
  { m with stats := { m.stats with misses := m.stats.misses + 1 } }

end Recording

/-- What a run that writes events works on. -/
structure Tape where
  cursor : Cursor
  recording : Option Recording := none
  replays : Array Replay := #[]
  events : Array Event := #[]

namespace Tape

def start (cursor : Cursor) (memoize : Bool) : Tape :=
  { cursor, recording := if memoize then some {} else none }

def place (t : Tape) : Place := t.cursor.place

/-! ## The cursor -/

def moveTo (t : Tape) (place : Place) : Tape := { t with cursor := t.cursor.moveTo place }

def advanceTo (t : Tape) (place : Place) : Tape := { t with cursor := t.cursor.advanceTo place }

def spendCall (t : Tape) : Tape := { t with cursor := { t.cursor with calls := t.cursor.calls.spend } }

def refuseCall (t : Tape) : Tape := { t with cursor := { t.cursor with calls := t.cursor.calls.refuse } }

def enter (t : Tape) : Tape := { t with cursor := { t.cursor with nesting := t.cursor.nesting.enter } }

def leave (t : Tape) : Tape := { t with cursor := { t.cursor with nesting := t.cursor.nesting.leave } }

def refuseNesting (t : Tape) : Tape :=
  { t with cursor := { t.cursor with nesting := t.cursor.nesting.refuse } }

/-! ## The recording -/

def remember : Tape → RuleRef → Nat → Option (Array Event) → Tape
  | ⟨cursor, recording, replays, events⟩, r, offset, outcome =>
    ⟨cursor, recording.map (·.record r offset outcome), replays, events⟩

/-- Notes that recorded events of a rule at an offset were replayed. -/
def noteReplay : Tape → RuleRef → Nat → Tape
  | ⟨cursor, recording, replays, events⟩, r, offset =>
    ⟨cursor, recording.map Recording.countHit, replays.push ⟨r, offset⟩, events⟩

def countFailureHit (t : Tape) : Tape :=
  { t with recording := t.recording.map Recording.countFailureHit }

def countMiss (t : Tape) : Tape := { t with recording := t.recording.map Recording.countMiss }

/-- Forgets everything but the replays and the events and goes back to where the run began. -/
def reset (t : Tape) : Tape :=
  { t with cursor := t.cursor.reset, recording := t.recording.map fun _ => {} }

/-- A new run that goes on with the cursor and the events of this one. -/
def renew (t : Tape) : Tape := { t with recording := t.recording.map fun _ => {} }

/-! ## The buffer -/

def push (t : Tape) (e : Event) : Tape := { t with events := t.events.push e }

def append (t : Tape) (events : Array Event) : Tape := { t with events := t.events ++ events }

def cutTo (t : Tape) (size : Nat) : Tape := { t with events := t.events.shrink size }

def withEvents (t : Tape) (events : Array Event) : Tape := { t with events }

/-- Closes the rule that is open with the length of its match. -/
def close (t : Tape) (length : Nat) : Option Nat × Tape :=
  (some length, (t.push .closed).push (.length length))

def leaf (t : Tape) (r : RuleRef) (length : Nat) : Option Nat × Tape :=
  (t.push (.opened r)).close length

/-- Writes the match of a rule around what its parts write. If the parts fail, all of it is cut off. -/
def around (t : Tape) (r : RuleRef) (parts : Tape → Option Nat × Tape) : Option Nat × Tape :=
  let size := t.events.size
  match parts (t.push (.opened r)) with
  | (some length, t) => t.close length
  | (none, t) => (none, t.cutTo size)

end Tape

/-- A way of running rules that writes the events of matches and tells their lengths. -/
abbrev Writer := RuleRef → Tape → Option Nat × Tape

namespace Writer

/-- Runs a rule with a buffer of its own, which is dropped, and moves the cursor back. -/
def test (write : Writer) (r : RuleRef) (t : Tape) : Option Nat × Tape :=
  let start := t.place
  let events := t.events
  match write r (t.withEvents #[]) with
  | (result, t) => (result, (t.moveTo start).withEvents events)

def all (write : Writer) : List RuleRef → Nat → Tape → Option Nat × Tape
  | [], length, t => (some length, t)
  | r :: rs, length, t =>
    match write r t with
    | (none, t) => (none, t)
    | (some n, t) => write.all rs (length + n) t

def firstOf (write : Writer) : List RuleRef → Tape → Option Nat × Tape
  | [], t => (none, t)
  | r :: rs, t =>
    match write r t with
    | (none, t) => write.firstOf rs t
    | (some n, t) => (some n, t)

def ifEnough (least count length : Nat) : Option Nat := if least ≤ count then some length else none

/-- Repeats a rule as long as it matches, but less than `most` times. A match of nothing ends the
repetition and stands for as many rounds as are needed. -/
def repeated (write : Writer) (r : RuleRef) (least : Nat) (most : Option Nat) :
    List Char → Nat → Nat → Tape → Option Nat × Tape
  | unread, count, length, t =>
    if most.any (· ≤ count) then (ifEnough least count length, t)
    else
      match write r t with
      | (none, t) => (ifEnough least count length, t)
      | (some n, t) =>
        if n = 0 then (ifEnough least (max (max count least) 1) length, t)
        else
          match unread with
          | [] => (none, t)
          | _ :: unread => write.repeated r least most unread (count + 1) (length + n) t

/-- Passes over characters until a rule matches or the text ends, and tells how many bytes. -/
def upTo (write : Writer) (stop : RuleRef) : List Char → Nat → Tape → Nat × Tape
  | rest, passed, t =>
    match write.test stop t with
    | (some _, t) => (passed, t)
    | (none, t) =>
      match rest with
      | [] => (passed, t)
      | c :: rest => write.upTo stop rest (passed + c.utf8Size) (t.moveTo (t.place.past c rest))

/-- The execution of a kind of rule, `write` running the rules it refers to. The cursor is not moved
behind the match. -/
def perform (write : Writer) (r : RuleRef) (t : Tape) : Kind RuleRef → Option Nat × Tape
  | .terminal matcher =>
    match matcher.matchAt t.place.rest with
    | some n => t.leaf r n
    | none => (none, t)
  | .text literal ignoreCase =>
    match literalAt (if ignoreCase then sameLower else (· == ·)) literal t.place.rest with
    | some n => t.leaf r n
    | none => (none, t)
  | .sequence parts => t.around r (write.all (parts.map r.sibling) 0)
  | .choice options => t.around r (write.firstOf (options.map r.sibling))
  | .rep body least most =>
    t.around r (write.repeated (r.sibling body) least most t.place.rest 0 0)
  | .ahead body =>
    match write.test (r.sibling body) t with
    | (some _, t) => t.leaf r 0
    | (none, t) => (none, t)
  | .notAhead body =>
    match write.test (r.sibling body) t with
    | (some _, t) => (none, t)
    | (none, t) => t.leaf r 0
  | .upTo stop =>
    let start := t.place
    match write.upTo (r.sibling stop) start.rest 0 t with
    | (passed, t) =>
      if 0 < passed then (t.moveTo start).leaf r passed else (none, t.moveTo start)
  | .ref _ target => t.around r (write target)
  | .inherited _ target => t.around r (write target)
  | .label body => t.around r (write (r.sibling body))

/-- Runs a rule within the limits, asking the call limit first. A rule that fails leaves the buffer
and the cursor as they were. -/
def limited (lib : Library) (inner : Option Writer) : Writer := fun r t =>
  if t.cursor.calls.isSpent then (none, t.refuseCall)
  else
    let t := t.spendCall
    match inner with
    | none => (none, t.refuseNesting)
    | some inner =>
      if t.cursor.nesting.exceeded then (none, t.refuseNesting)
      else
        let start := t.place
        let size := t.events.size
        match lib.rule? r with
        | none => (none, t)
        | some rule =>
          match inner.perform r t.enter rule.kind with
          | (some n, t) => (some n, t.leave.advanceTo (start.advance n))
          | (none, t) => (none, (t.leave.cutTo size).moveTo start)

/-- Runs a rule through the recording, if there is one. Recorded events are copied behind the others,
and the last of them tells the length of the match. -/
def memoized (write : Writer) : Writer := fun r t =>
  match t.recording with
  | none => write r t
  | some recording =>
    let start := t.place
    match recording.outcome? r start.offset with
    | some (some events) =>
      let t := (t.noteReplay r start.offset).append events
      match t.events.back?.bind Event.bytes? with
      | some n => (some n, t.advanceTo (start.advance n))
      | none => (none, t)
    | some none => (none, t.countFailureHit)
    | none =>
      let size := t.events.size
      match write r t.countMiss with
      | (result, t) =>
        if t.cursor.reachedLimit then (result, t)
        else
          let written := result.map fun _ => t.events.extract size
          (result, t.remember r start.offset written)

end Writer

namespace Library

/-- Writes what a rule matches with room for so many executions nested inside each other. -/
def writer (lib : Library) : Nat → Writer
  | 0 => Writer.memoized (Writer.limited lib none)
  | room + 1 => Writer.memoized (Writer.limited lib (some (lib.writer room)))

/-- Writes what a rule matches with the room that the nesting limit leaves. -/
def write (lib : Library) : Writer := fun r t => lib.writer t.cursor.nesting.room r t

/-- Performs a rule without asking limits or recording for the rule itself. -/
def writeBare (lib : Library) : Writer := fun r t =>
  match lib.rule? r with
  | none => (none, t)
  | some rule => (lib.writer t.cursor.nesting.room).perform r t rule.kind

end Library

namespace Tape

/-- Takes a step of a session and tells the length of the match, if the step made one. -/
def perform (lib : Library) (t : Tape) : Session.Step → Option Nat × Tape
  | .exec r => lib.write r t
  | .test r => lib.write.test r t
  | .bare r => lib.writeBare r t
  | .moveTo offset =>
    match Place.at? t.cursor.source offset with
    | some place => (none, t.moveTo place)
    | none => (none, t)
  | .reset => (none, t.reset)
  | .clear => (none, t.withEvents #[])
  | .renew => (none, t.renew)

end Tape

end Peg
