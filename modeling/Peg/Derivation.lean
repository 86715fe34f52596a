/-!
# Derivations and their events

A derivation is the tree of rules that matched a piece of text. A rule that only passes on the match
of another one wraps the derivation of that rule, and so has its length. The flat form of a
derivation is a list of events: each rule opens, its parts follow, and it closes with its length.
-/

namespace Peg

/-- A rule of a library: the number of its grammar and its number in that grammar. -/
structure RuleRef where
  grammar : Nat
  rule : Nat
deriving DecidableEq, Hashable

def RuleRef.sibling (r : RuleRef) (rule : Nat) : RuleRef := ⟨r.grammar, rule⟩

inductive Event where
  | opened (rule : RuleRef)
  | closed
  | length (bytes : Nat)
deriving DecidableEq

namespace Event

/-- The rule that opens. -/
def rule? : Event → Option RuleRef
  | opened r => some r
  | _ => none

/-- The number of bytes that the event tells. -/
def bytes? : Event → Option Nat
  | length n => some n
  | _ => none

end Event

inductive Derivation where
  | branch (rule : RuleRef) (length : Nat) (parts : List Derivation)
  | wrapped (rule : RuleRef) (inner : Derivation)

namespace Derivation

def rule : Derivation → RuleRef
  | branch r _ _ => r
  | wrapped r _ => r

def length : Derivation → Nat
  | branch _ n _ => n
  | wrapped _ inner => inner.length

def totalLength : List Derivation → Nat
  | [] => 0
  | d :: ds => d.length + totalLength ds

mutual

/-- Writes the events of a derivation behind others. -/
def emit (events : Array Event) : Derivation → Array Event
  | branch r n parts => ((emitAll (events.push (.opened r)) parts).push .closed).push (.length n)
  | wrapped r inner =>
    ((emit (events.push (.opened r)) inner).push .closed).push (.length inner.length)

def emitAll (events : Array Event) : List Derivation → Array Event
  | [] => events
  | d :: ds => emitAll (emit events d) ds

end

/-- The flat form of a derivation. -/
def events (d : Derivation) : Array Event := emit #[] d

end Derivation

end Peg
