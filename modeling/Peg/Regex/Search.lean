import Peg.Regex.Automaton
import Std.Data.TreeSet.Basic

/-!
# Searching a text

A search keeps the list of all states in which a match may go on, the preferred ones first, and lets
all of them read one character after the other. `reach` follows the states that read nothing, always
the preferred way first, and visits no state twice. A match that is found puts an end to the states
after it.

Whether a condition holds can depend on the next character. A search goes ahead as far as it can
without knowing it: states behind such a condition join the list when the next character is known, and
the list is put in order anew (`resolve`). This is done for every text as long as words are told apart
in ASCII (`searchAhead`). Where a character outside ASCII could decide whether there is a word, the
search starts again and judges every condition in its place (`search`). Both ways find the same matches
but for repetitions of conditions, where they can prefer different ones.
-/

namespace Peg

namespace Automaton

/-! ## States that can be reached -/

/-- Visits the states on a stack and those that they lead to without reading. The states that read,
accept or set a condition are returned, the latest first. -/
def visit (a : Automaton) (holds : Look → Bool) :
    Nat → Std.TreeSet Nat → List Nat → List Nat → List Nat
  | 0, _, _, found => found
  | _, _, [], found => found
  | fuel + 1, seen, n :: stack, found =>
    if seen.contains n then visit a holds fuel seen stack found
    else
      let seen := seen.insert n
      match a.state n with
      | .read _ _ => visit a holds fuel seen stack (n :: found)
      | .accept => visit a holds fuel seen stack (n :: found)
      | .look condition next =>
        visit a holds fuel seen (if holds condition then next :: stack else stack) (n :: found)
      | .split first second => visit a holds fuel seen (first :: second :: stack) found
      | .fail => visit a holds fuel seen stack found

/-- The states that are reached from others without reading, in order of preference. Every state puts
two others on the stack at most, which bounds the number of visits. -/
def reach (a : Automaton) (holds : Look → Bool) (states : List Nat) : List Nat :=
  (visit a holds (states.length + 2 * a.states.size) ∅ states []).reverse

/-! ## Reading a character -/

def accepts (a : Automaton) (states : List Nat) : Bool :=
  states.any fun n => a.state n == .accept

/-- Where a character leads from the states in front of the first one that accepts. -/
def follow (a : Automaton) (c : Char) : List Nat → List Nat
  | [] => []
  | n :: rest =>
    match a.state n with
    | .accept => []
    | .read s next => if s.contains c then next :: follow a c rest else follow a c rest
    | _ => follow a c rest

/-! ## Searching ahead -/

def isLate (a : Automaton) (before after : Option Char) (states : List Nat) : Bool :=
  states.any fun n =>
    match a.state n with
    | .look condition _ => condition.holds before after && !condition.holdsAfter before
    | _ => false

/-- The states of a list between two characters, its conditions resolved. -/
def resolve (a : Automaton) (before after : Option Char) (states : List Nat) : List Nat :=
  if a.isLate before after states then a.reach (·.holds before after) states else states

/-- Reads the text on from the states after `before`, `best` being the end of the best match so far
and `matched` whether it was found at the last step. Fails if a character is not `plain`. -/
def searchAheadFrom (a : Automaton) (plain : Char → Bool) (states : List Nat) (before : Option Char)
    (matched : Bool) (offset : Nat) (best : Option Nat) : List Char → Option (Option Nat)
  | [] => some (if a.accepts (a.resolve before none states) then some offset else best)
  | c :: rest =>
    if states.isEmpty && !matched then some best
    else if !plain c then none
    else
      let resolved := a.resolve before (some c) states
      let matched := a.accepts resolved
      let states := a.reach (·.holdsAfter (some c)) (a.follow c resolved)
      searchAheadFrom a plain states (some c) matched (offset + c.utf8Size)
        (if matched then some offset else best) rest

/-- The end of the match, none if the search meets a character that is not `plain` before. -/
def searchAhead (a : Automaton) (plain : Char → Bool) (text : List Char) : Option (Option Nat) :=
  searchAheadFrom a plain (a.reach (·.holdsAfter none) [a.start]) none false 0 none text

/-! ## Searching in place -/

def searchFrom (a : Automaton) (states : List Nat) (offset : Nat) (best : Option Nat) :
    List Char → Option Nat
  | [] => if a.accepts states then some offset else best
  | c :: rest =>
    if states.isEmpty then best
    else
      let best := if a.accepts states then some offset else best
      let states := a.reach (·.holds (some c) rest.head?) (a.follow c states)
      searchFrom a states (offset + c.utf8Size) best rest

def search (a : Automaton) (text : List Char) : Option Nat :=
  searchFrom a (a.reach (·.holds none text.head?) [a.start]) 0 none text

/-! ## The match -/

/-- The end of the leftmost match, the preferred one of those that begin there. -/
def findEnd (a : Automaton) (text : List Char) : Option Nat :=
  match a.searchAhead (fun c => !a.unicodeWords || c.toNat < 128) text with
  | some result => result
  | none => a.search text

end Automaton

end Peg
