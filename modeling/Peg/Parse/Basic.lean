import Peg.Engine.Run
import Peg.Log
import Peg.Match.Reading
import Peg.Parse.Error
import Peg.Parse.Options

/-!
# Parsing

A parse runs the root rule at the start offset and reads the derivation as a match. A limit that was
exceeded fails the parse whatever the root rule made of it, because a refused execution may have
gone unnoticed inside an optional part. Failures are placed at the furthest point that a match
reached.
-/

namespace Peg

/-- The result of a parse and what was noted on the way. -/
structure Parsed (α : Type) where
  result : Except ParseError α
  log : List LogRecord := []

namespace Parsed

def map {α β : Type} (f : α → β) (p : Parsed α) : Parsed β := { p with result := p.result.map f }

/-- Whether two parses failed with the same error or matched in the same way. -/
def same (p q : Parsed Match) : Bool :=
  match p.result, q.result with
  | .ok m, .ok n => m.same n
  | .error e, .error f => e == f
  | _, _ => false

end Parsed

namespace Library

/-- The rule to begin a parse with, none if it is given by a name that stands for no rule. -/
def parseRoot (lib : Library) (g : Nat) (root : Option String) : Option RuleRef :=
  match root with
  | some name => lib.lookup g name
  | none => (lib.grammar? g).map (·.root)

/-- The result of a parse whose run ended in a state. -/
def parseResult (lib : Library) (g : Nat) (options : ParseOptions) (source : List Char)
    (place : Place) (outcome : Option Derivation) (cursor : Cursor) : Parsed Match :=
  if cursor.calls.exceeded then
    ⟨.error (.ofOffset .callLimit source cursor.furthest), [.callLimitReached (lib.grammarName g)]⟩
  else if cursor.nesting.exceeded then
    ⟨.error (.ofOffset .depthLimit source cursor.furthest), [.depthLimitReached (lib.grammarName g)]⟩
  else
    match outcome with
    | none => ⟨.error (.ofOffset .noMatch source cursor.furthest), []⟩
    | some d =>
      let finish := place.offset + d.length
      if options.requireFullConsumption && finish != byteLength source then
        ⟨.error (.ofOffset .incomplete source (max cursor.furthest finish)), []⟩
      else ⟨.ok (.ofDerivation lib source place d), [.matched d.length]⟩

def parseLogged (lib : Library) (g : Nat) (source : List Char) (options : ParseOptions) :
    Parsed Match :=
  match lib.parseRoot g options.root with
  | none => ⟨.error (.ofOffset (.unknownRule (options.root.getD "")) source 0), []⟩
  | some root =>
    match Cursor.at? source options.startOffset with
    | none =>
      ⟨.error (.ofOffset .invalidOffset source (min options.startOffset (byteLength source))), []⟩
    | some cursor =>
      let cursor := (cursor.withCallLimit options.callLimit).withMaxDepth options.maxDepth
      let (outcome, state) := lib.run root (.start cursor options.memoize)
      let parsed := lib.parseResult g options source cursor.place outcome state.cursor
      let parsing := .parsing (byteLength cursor.place.rest) (lib.grammarName g)
        (lib.shownName root) options.memoize
      let stats := state.memo.toList.map fun memo => .memoization memo.stats
      { parsed with log := parsing :: lib.replayRecords state.replays ++ stats ++ parsed.log }

def parse (lib : Library) (g : Nat) (text : String) (options : ParseOptions) :
    Except ParseError Match :=
  (lib.parseLogged g text.toList options).result

/-- The length of the match of the root rule at the beginning of a text, which need not be matched
up to its end. -/
def test (lib : Library) (g : Nat) (text : String) : Option Nat :=
  ((lib.grammar? g).bind fun grammar =>
    (lib.run grammar.root (.start (.new text.toList) false)).1).map Derivation.length

end Library

end Peg
