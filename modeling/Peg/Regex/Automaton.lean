import Peg.Regex.Basic

/-!
# Automata

An automaton is a list of numbered states. A state reads a character out of a set, sets a condition,
splits into two ways the first of which is preferred, or accepts.

`ofRegex` builds the automaton of an expression from its end to its beginning: every expression is
given the state to go on with and yields the state to begin with. A repetition of a body that can be
empty first runs the body and then splits, so that a round which reads nothing leaves it.
-/

namespace Peg

inductive AutomatonState where
  | read (s : CharSet) (next : Nat)
  | look (condition : Look) (next : Nat)
  | split (first second : Nat)
  | accept
  | fail
deriving DecidableEq

/-- Whether a character outside ASCII can decide the condition of a state. -/
def AutomatonState.isUnicodeWord : AutomatonState → Bool
  | look condition _ => condition.isUnicodeWord
  | _ => false

structure Automaton where
  states : Array AutomatonState
  start : Nat
  /-- Whether a character outside ASCII can decide a condition. -/
  unicodeWords : Bool

namespace Automaton

def state (a : Automaton) (n : Nat) : AutomatonState := a.states[n]?.getD .fail

/-- States built so far and the state to go on with. -/
abbrev Stage := Array AutomatonState × Nat

namespace Stage

def add (state : Nat → AutomatonState) : Stage → Stage
  | (states, next) =>
    let n := states.size
    (states.push (state next), n)

/-- A split into one of two ways, the body first if greedy. -/
def split (greedy : Bool) (body exit : Nat) : AutomatonState :=
  if greedy then .split body exit else .split exit body

def addSplit (greedy : Bool) (exit : Nat) (stage : Stage) : Stage :=
  stage.add fun body => split greedy body exit

def iterate (step : Stage → Stage) : Nat → Stage → Stage
  | 0, stage => stage
  | n + 1, stage => iterate step n (step stage)

/-- A loop: a split to which `body` returns, and the state that `body` begins with. -/
def loop (greedy : Bool) (body : Stage → Stage) : Stage → Nat × Stage
  | (states, exit) =>
    let back := states.size
    let (states, entry) := body (states.push .fail, back)
    (back, states.setIfInBounds back (split greedy entry exit), entry)

end Stage

open Stage

mutual

/-- Puts an expression before a stage. -/
def build : Regex → Stage → Stage
  | .empty, stage => stage
  | .literal chars, stage =>
    chars.foldr (fun c stage => stage.add fun next => .read (.ofChar c) next) stage
  | .set s, stage => stage.add fun next => .read s next
  | .look condition, stage => stage.add fun next => .look condition next
  | .group _ body, stage => build body stage
  | .seq parts, stage => buildParts parts stage
  | .alt options, stage => buildOptions options stage
  | .times 0 (some 1) greedy body, stage => addSplit greedy stage.2 (build body stage)
  | .times 0 none greedy body, stage =>
    if body.neverEmpty then
      let (back, states, _) := loop greedy (build body) stage
      (states, back)
    else addSplit greedy stage.2 (loop greedy (build body) stage).2
  | .times (least + 1) none greedy body, stage =>
    iterate (build body) least (loop greedy (build body) stage).2
  | .times least (some most) greedy body, stage =>
    let optional (inner : Stage) := addSplit greedy stage.2 (build body inner)
    iterate (build body) least (iterate optional (most - least) stage)

def buildParts : List Regex → Stage → Stage
  | [], stage => stage
  | [r], stage => build r stage
  | r :: rs, stage => build r (buildParts rs stage)

def buildOptions : List Regex → Stage → Stage
  | [], stage => stage.add fun _ => .fail
  | [r], stage => build r stage
  | r :: rs, (states, next) =>
    let (states, second) := buildOptions rs (states, next)
    let (states, first) := build r (states, next)
    let n := states.size
    (states.push (.split first second), n)

end

/-- The states of an expression and the one to begin with. Unless the expression begins with the start
of the text, a search may pass over characters before the match, which it does only if there is no
match before. -/
def whole (r : Regex) : Stage :=
  let stage := build r (#[.accept], 0)
  if r.startsAtText then stage
  else
    let (back, states, _) :=
      loop false (add fun next => .read { ranges := [(0, 0x10ffff)] } next) stage
    (states, back)

def ofRegex (r : Regex) : Automaton :=
  let (states, start) := whole r
  let unicodeWords := states.any AutomatonState.isUnicodeWord
  { states, start, unicodeWords }

end Automaton

end Peg
