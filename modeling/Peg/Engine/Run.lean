import Peg.Engine.State
import Peg.Grammar.Basic

/-!
# Running rules

A run of a rule at the place of the cursor yields the derivation of a match and moves the cursor
behind it, or yields nothing and leaves the cursor where it was. Each kind of rule is carried out by
a loop over an arbitrary way of running the rules it refers to. `Library.exec` ties the loops
together. It recurses on the room left for nesting, so it ends for every grammar: within one
execution the loops are bounded by the number of parts or by the text still unread.
-/

namespace Peg

/-- A way of running rules. -/
abbrev Exec := RuleRef → State → Option Derivation × State

namespace Exec

/-- Runs a rule only to see whether it matches, and moves the cursor back. -/
def test (exec : Exec) (r : RuleRef) (s : State) : Bool × State :=
  let start := s.place
  match exec r s with
  | (outcome, s) => (outcome.isSome, s.moveTo start)

def all (exec : Exec) : List RuleRef → State → Option (List Derivation) × State
  | [], s => (some [], s)
  | r :: rs, s =>
    match exec r s with
    | (none, s) => (none, s)
    | (some d, s) =>
      match exec.all rs s with
      | (none, s) => (none, s)
      | (some ds, s) => (some (d :: ds), s)

def firstOf (exec : Exec) : List RuleRef → State → Option Derivation × State
  | [], s => (none, s)
  | r :: rs, s =>
    match exec r s with
    | (none, s) => exec.firstOf rs s
    | (some d, s) => (some d, s)

/-- Repeats a rule as long as it matches, but no more than `most` times. A match of nothing ends the
repetition and counts as enough, since all further ones would be alike. `done` are the `count` rounds
so far, latest first, and each of them has read a character that was unread before. -/
def repeated (exec : Exec) (r : RuleRef) (least : Nat) (most : Option Nat) :
    List Char → Nat → List Derivation → State → Option (List Derivation) × State
  | unread, count, done, s =>
    if most = some count then (if least ≤ count then some done.reverse else none, s)
    else
      match exec r s with
      | (none, s) => (if least ≤ count then some done.reverse else none, s)
      | (some d, s) =>
        if d.length = 0 then (some (d :: done).reverse, s)
        else
          match unread with
          | [] => (none, s)
          | _ :: unread => exec.repeated r least most unread (count + 1) (d :: done) s

def upTo (exec : Exec) (stop : RuleRef) : List Char → Nat → State → Nat × State
  | rest, passed, s =>
    match exec.test stop s with
    | (true, s) => (passed, s)
    | (false, s) =>
      match rest with
      | [] => (passed, s)
      | c :: rest => exec.upTo stop rest (passed + c.utf8Size) (s.moveTo (s.place.past c rest))

def wrap (exec : Exec) (r inner : RuleRef) (s : State) : Option Derivation × State :=
  match exec inner s with
  | (outcome, s) => (outcome.map (.wrapped r), s)

/-- The execution of a kind of rule, `exec` running the rules it refers to. Where a match is found
the cursor need not have been moved behind it yet. -/
def perform (exec : Exec) (r : RuleRef) (s : State) : Kind RuleRef → Option Derivation × State
  | .terminal matcher => ((matcher.matchAt s.place.rest).map fun n => .branch r n [], s)
  | .text literal ignoreCase =>
    let alike := if ignoreCase then sameLower else (· == ·)
    ((literalAt alike literal s.place.rest).map fun n => .branch r n [], s)
  | .sequence parts =>
    match exec.all (parts.map r.sibling) s with
    | (outcome, s) => (outcome.map fun ds => .branch r (Derivation.totalLength ds) ds, s)
  | .choice options =>
    match exec.firstOf (options.map r.sibling) s with
    | (outcome, s) => (outcome.map (.wrapped r), s)
  | .rep body least most =>
    match exec.repeated (r.sibling body) least most s.place.rest 0 [] s with
    | (outcome, s) => (outcome.map fun ds => .branch r (Derivation.totalLength ds) ds, s)
  | .ahead body =>
    match exec.test (r.sibling body) s with
    | (found, s) => (if found then some (.branch r 0 []) else none, s)
  | .notAhead body =>
    match exec.test (r.sibling body) s with
    | (found, s) => (if found then none else some (.branch r 0 []), s)
  | .upTo stop =>
    let start := s.place
    match exec.upTo (r.sibling stop) start.rest 0 s with
    | (passed, s) => (if 0 < passed then some (.branch r passed []) else none, s.moveTo start)
  | .ref _ target => exec.wrap r target s
  | .inherited _ target => exec.wrap r target s
  | .label body => exec.wrap r (r.sibling body) s

end Exec

namespace State

/-- Leaves an execution, its match found or not: the cursor goes behind the match or back. -/
def settle (s : State) (start : Place) : Option Derivation → Option Derivation × State
  | none => (none, s.moveTo start)
  | some d => (some d, s.advanceTo (start.advance d.length))

def spendCall (s : State) : State := { s with cursor := { s.cursor with calls := s.cursor.calls.spend } }

def refuseCall (s : State) : State := { s with cursor := { s.cursor with calls := s.cursor.calls.refuse } }

def enter (s : State) : State := { s with cursor := { s.cursor with nesting := s.cursor.nesting.enter } }

def leave (s : State) : State := { s with cursor := { s.cursor with nesting := s.cursor.nesting.leave } }

def refuseNesting (s : State) : State :=
  { s with cursor := { s.cursor with nesting := s.cursor.nesting.refuse } }

end State

namespace Exec

/-- Runs a rule within the limits; `inner` runs the rules it refers to, unless there is no room for
them to nest. The call limit is asked first, and a refusal by it costs no call. -/
def limited (lib : Library) (inner : Option Exec) : Exec := fun r s =>
  if s.cursor.calls.isSpent then (none, s.refuseCall)
  else
    let s := s.spendCall
    match inner with
    | none => (none, s.refuseNesting)
    | some inner =>
      if s.cursor.nesting.exceeded then (none, s.refuseNesting)
      else
        let start := s.place
        match lib.rule? r with
        | none => (none, s)
        | some rule =>
          match inner.perform r s.enter rule.kind with
          | (outcome, s) => s.leave.settle start outcome

/-- Runs a rule through the memo, if there is one: what is recorded is replayed, and what is not is
run and recorded, unless a limit was exceeded by then. -/
def memoized (exec : Exec) : Exec := fun r s =>
  match s.memo with
  | none => exec r s
  | some memo =>
    let start := s.place
    match memo.outcome? r start.offset with
    | some (some d) => (some d, (s.noteReplay r start.offset).advanceTo (start.advance d.length))
    | some none => (none, s.countFailureHit)
    | none =>
      match exec r s.countMiss with
      | (outcome, s) =>
        if s.cursor.reachedLimit then (outcome, s)
        else (outcome, s.remember r start.offset outcome)

end Exec

namespace Library

/-- Runs a rule with room for so many executions nested inside each other. -/
def exec (lib : Library) : Nat → Exec
  | 0 => Exec.memoized (Exec.limited lib none)
  | room + 1 => Exec.memoized (Exec.limited lib (some (lib.exec room)))

/-- Runs a rule with the room that the nesting limit leaves. -/
def run (lib : Library) : Exec := fun r s => lib.exec s.cursor.nesting.room r s

/-- Performs a rule without asking limits or memo for the rule itself, and without moving the cursor
behind the match. -/
def runBare (lib : Library) : Exec := fun r s =>
  match lib.rule? r with
  | none => (none, s)
  | some rule => (lib.exec s.cursor.nesting.room).perform r s rule.kind

end Library

end Peg
