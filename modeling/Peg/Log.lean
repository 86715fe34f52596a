import Peg.Engine.State
import Peg.Grammar.Basic

/-!
# Log records

What is worth noting while grammars are built and texts are parsed.
-/

namespace Peg

inductive LogRecord where
  | built (grammar : String) (named lowered : Nat)
  | parsing (bytes : Nat) (grammar rule : String) (memoize : Bool)
  | replayed (rule : Option String) (offset : Nat)
  | memoization (stats : MemoStats)
  | callLimitReached (grammar : String)
  | depthLimitReached (grammar : String)
  | matched (bytes : Nat)

namespace LogRecord

def level : LogRecord → String
  | replayed _ _ => "TRACE"
  | callLimitReached _ | depthLimitReached _ => "WARN"
  | _ => "DEBUG"

def message : LogRecord → String
  | built grammar named lowered =>
    "built grammar " ++ grammar ++ " with " ++ toString named ++ " rules (" ++ toString lowered
      ++ " lowered)"
  | parsing bytes grammar rule memoize =>
    "parsing " ++ toString bytes ++ " bytes with " ++ grammar ++ "::" ++ rule ++ " (memoize: "
      ++ Text.Outline.bool memoize ++ ")"
  | replayed rule offset =>
    "replaying " ++ Text.Outline.option (rule.map Text.quote) ++ " at " ++ toString offset
  | memoization stats => "memoization: " ++ stats.outline
  | callLimitReached grammar => "call limit reached while parsing with " ++ grammar
  | depthLimitReached grammar => "depth limit reached while parsing with " ++ grammar
  | matched bytes => "matched " ++ toString bytes ++ " bytes"

def line (r : LogRecord) : String := r.level ++ " " ++ r.message

end LogRecord

def Grammar.builtRecord (g : Grammar) : LogRecord :=
  .built g.name g.defined.length g.rules.size

/-- The records of the matches replayed in a run. -/
def Library.replayRecords (lib : Library) (replays : Array Replay) : List LogRecord :=
  replays.toList.map fun replay => .replayed (lib.nameOf replay.rule) replay.offset

end Peg
