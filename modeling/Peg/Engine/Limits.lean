import Peg.Text.Outline

/-!
# Limits on a run

A run may be limited in the number of rule executions and in how deep they nest. Both limits count
what they refused, and a limit is exceeded once it has refused anything. After the nesting limit was
exceeded it refuses every further execution.
-/

namespace Peg

structure CallBudget where
  /-- The number of executions allowed, any number if there is no limit. -/
  limit : Option Nat := none
  made : Nat := 0
  refused : Nat := 0
deriving DecidableEq

namespace CallBudget

def exceeded (b : CallBudget) : Bool := b.refused != 0

def isSpent (b : CallBudget) : Bool := b.limit.any fun limit => limit ≤ b.made

def spend (b : CallBudget) : CallBudget := { b with made := b.made + 1 }

def refuse (b : CallBudget) : CallBudget := { b with refused := b.refused + 1 }

def fresh (b : CallBudget) : CallBudget := { limit := b.limit }

open Text.Outline in
def outline (b : CallBudget) : String :=
  record "CallLimitTracker"
    [("current_call_limit", option (b.limit.map fun limit => tuple "" [nat b.made, nat limit])),
      ("exceeded", bool b.exceeded)]

end CallBudget

structure Nesting where
  /-- How deep executions may nest. -/
  limit : Nat
  depth : Nat := 0
  /-- The greatest depth so far. -/
  deepest : Nat := 0
  refused : Nat := 0
deriving DecidableEq

namespace Nesting

def exceeded (n : Nesting) : Bool := n.refused != 0

def enter (n : Nesting) : Nesting :=
  { n with depth := n.depth + 1, deepest := max n.deepest (n.depth + 1) }

def leave (n : Nesting) : Nesting := { n with depth := n.depth - 1 }

def refuse (n : Nesting) : Nesting := { n with refused := n.refused + 1 }

def fresh (n : Nesting) : Nesting := { limit := n.limit }

/-- How much deeper executions may nest. -/
def room (n : Nesting) : Nat := n.limit - n.depth

open Text.Outline in
def outline (n : Nesting) : String :=
  record "DepthTracker"
    [("depth", nat n.depth), ("max_depth", nat n.limit), ("exceeded", bool n.exceeded)]

end Nesting

/-- The nesting allowed unless something else is asked for. -/
def defaultMaxDepth : Nat := 512

end Peg
