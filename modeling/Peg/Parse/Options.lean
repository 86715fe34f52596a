import Peg.Engine.Limits

/-!
# Options of a parse
-/

namespace Peg

structure ParseOptions where
  /-- The byte offset where parsing begins. -/
  startOffset : Nat := 0
  memoize : Bool := false
  /-- Whether the match has to reach the end of the text. -/
  requireFullConsumption : Bool := true
  /-- The rule to begin with in place of the root of the grammar. -/
  root : Option String := none
  callLimit : Option Nat := none
  maxDepth : Nat := defaultMaxDepth
deriving DecidableEq

namespace ParseOptions

/-- Limits the number of rule executions; zero lifts the limit. -/
def withCallLimit (o : ParseOptions) (limit : Option Nat) : ParseOptions :=
  { o with callLimit := limit.filter (· ≠ 0) }

open Text.Outline in
def outline (o : ParseOptions) : String :=
  record "ParseOptions"
    [("start_offset", nat o.startOffset), ("memoize", bool o.memoize),
      ("require_full_consumption", bool o.requireFullConsumption),
      ("root", option (o.root.map Text.quote)), ("call_limit", option (o.callLimit.map nat)),
      ("max_depth", nat o.maxDepth)]

end ParseOptions

end Peg
