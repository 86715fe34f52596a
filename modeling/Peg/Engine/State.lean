import Std.Data.HashMap
import Peg.Derivation
import Peg.Engine.Cursor

/-!
# Run states

What a run of rules works on: a cursor and, if outcomes are to be remembered, a memo. The memo keeps
for every rule and offset the outcome of the first execution and replays it from then on. Replays of
matches are also listed in the order in which they happened.
-/

namespace Peg

/-- The counts of recorded matches replayed, recorded failures replayed and outcomes to be recorded. -/
structure MemoStats where
  hits : Nat := 0
  failureHits : Nat := 0
  misses : Nat := 0
deriving DecidableEq

open Text.Outline in
def MemoStats.outline (s : MemoStats) : String :=
  record "CacheStats"
    [("hits", nat s.hits), ("failure_hits", nat s.failureHits), ("misses", nat s.misses)]

structure Memo where
  /-- The recorded outcomes by rule and offset, failures being none. -/
  table : Std.HashMap (RuleRef × Nat) (Option Derivation) := {}
  stats : MemoStats := {}

namespace Memo

def outcome? (m : Memo) (r : RuleRef) (offset : Nat) : Option (Option Derivation) :=
  m.table[(r, offset)]?

def record : Memo → RuleRef → Nat → Option Derivation → Memo
  | ⟨table, stats⟩, r, offset, outcome => ⟨table.insert (r, offset) outcome, stats⟩

def countHit (m : Memo) : Memo := { m with stats := { m.stats with hits := m.stats.hits + 1 } }

def countFailureHit (m : Memo) : Memo :=
  { m with stats := { m.stats with failureHits := m.stats.failureHits + 1 } }

def countMiss (m : Memo) : Memo := { m with stats := { m.stats with misses := m.stats.misses + 1 } }

end Memo

/-- A recorded match of a rule that was replayed at an offset. -/
structure Replay where
  rule : RuleRef
  offset : Nat
deriving DecidableEq

structure State where
  cursor : Cursor
  memo : Option Memo := none
  replays : Array Replay := #[]

namespace State

def start (cursor : Cursor) (memoize : Bool) : State :=
  { cursor, memo := if memoize then some {} else none }

def place (s : State) : Place := s.cursor.place

def moveTo (s : State) (place : Place) : State := { s with cursor := s.cursor.moveTo place }

def advanceTo (s : State) (place : Place) : State := { s with cursor := s.cursor.advanceTo place }

def remember : State → RuleRef → Nat → Option Derivation → State
  | ⟨cursor, memo, replays⟩, r, offset, outcome =>
    ⟨cursor, memo.map (·.record r offset outcome), replays⟩

/-- Notes that the match of a rule at an offset was replayed. -/
def noteReplay : State → RuleRef → Nat → State
  | ⟨cursor, memo, replays⟩, r, offset =>
    ⟨cursor, memo.map Memo.countHit, replays.push ⟨r, offset⟩⟩

def countFailureHit (s : State) : State := { s with memo := s.memo.map Memo.countFailureHit }

def countMiss (s : State) : State := { s with memo := s.memo.map Memo.countMiss }

/-- Forgets everything but the replays and goes back to where the run began. -/
def reset (s : State) : State :=
  { s with cursor := s.cursor.reset, memo := s.memo.map fun _ => {} }

/-- A new run that goes on with the cursor of this one. -/
def renew (s : State) : State := { s with memo := s.memo.map fun _ => {} }

open Text.Outline in
def outline (s : State) : String :=
  match s.memo with
  | none => record "StringInput" [("cursor", s.cursor.outline)]
  | some memo =>
    record "MemoizedInput"
      [("cursor", s.cursor.outline), ("cache_len", nat memo.table.size),
        ("stats", memo.stats.outline)]

end State

end Peg
