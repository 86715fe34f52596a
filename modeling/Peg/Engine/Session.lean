import Peg.Engine.Run

/-!
# Sessions

A session runs rules step by step over one text and collects the events of the matches in one list.
A step that fails or only tests adds no events.
-/

namespace Peg

inductive Session.Step where
  /-- Runs a rule. -/
  | exec (rule : RuleRef)
  /-- Runs a rule only to see whether it matches. -/
  | test (rule : RuleRef)
  /-- Performs a rule without limits and memo for the rule itself. -/
  | bare (rule : RuleRef)
  /-- Moves to an offset, or stays if it is no place of the text. -/
  | moveTo (offset : Nat)
  /-- Starts again with an empty memo and unused limits. -/
  | reset
  /-- Drops the events collected. -/
  | clear
  /-- Goes on with an empty memo. -/
  | renew

structure Session where
  state : State
  events : Array Event := #[]

namespace Session

def start (cursor : Cursor) (memoize : Bool) : Session := { state := .start cursor memoize }

/-- Adds the events of an outcome to the session, and tells the length of the match. -/
def collect (events : Array Event) : Option Derivation × State → Option Nat × Session
  | (none, state) => (none, { state, events })
  | (some d, state) => (some d.length, { state, events := d.emit events })

/-- Takes a step and tells the length of the match, if the step made one. -/
def perform (lib : Library) (s : Session) : Step → Option Nat × Session
  | .exec r => collect s.events (lib.run r s.state)
  | .test r =>
    match lib.run r s.state with
    | (outcome, state) =>
      (outcome.map Derivation.length, { s with state := state.moveTo s.state.place })
  | .bare r => collect s.events (lib.runBare r s.state)
  | .moveTo offset =>
    match Place.at? s.state.cursor.source offset with
    | some place => (none, { s with state := s.state.moveTo place })
    | none => (none, s)
  | .reset => (none, { s with state := s.state.reset })
  | .clear => (none, { s with events := #[] })
  | .renew => (none, { s with state := s.state.renew })

end Session

end Peg
