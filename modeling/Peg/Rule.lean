import Peg.Derivation
import Peg.Extension
import Peg.Regex.Pattern
import Peg.Regex.Search
import Peg.Regex.Size

/-!
# Rules

A rule is what an expression becomes inside a grammar: its kind, which refers to other rules of the
grammar by number, and the name, label and extension attached to it. References by name carry what
is known of their target, which is the rule itself once the grammar is finished.
-/

namespace Peg

/-- The automaton of a regular expression with the pattern that the expression was read from. -/
structure Pattern where
  source : String
  automaton : Automaton

namespace Pattern

def ofSource? (source : String) : Option Pattern := do
  let regex ← Regex.ofPattern? source.toList
  if regex.isSmall then some ⟨source, .ofRegex regex⟩ else none

/-- The pattern in a group that is only to match where the search begins. -/
def anchored? (source : String) : Option Pattern := ofSource? ("^(?:" ++ source ++ ")")

end Pattern

/-- What matches in a single step. -/
inductive Matcher where
  | pattern (p : Pattern)
  | range (first last : Char)
  | any
  | endOfInput

namespace Matcher

/-- The number of bytes matched at the beginning of a text. -/
def matchAt : Matcher → List Char → Option Nat
  | pattern p, rest => p.automaton.findEnd rest
  | range first last, c :: _ => if first ≤ c && c ≤ last then some c.utf8Size else none
  | range _ _, [] => none
  | any, c :: _ => some c.utf8Size
  | any, [] => none
  | endOfInput, [] => some 0
  | endOfInput, _ :: _ => none

def outline : Matcher → String
  | pattern p => Text.Outline.tuple "Pattern" [Text.Outline.tuple "Regex" [Text.quote p.source]]
  | range first last => Text.Outline.tuple "Range" [Text.quoteChar first, Text.quoteChar last]
  | any => "Any"
  | endOfInput => "EndOfInput"

end Matcher

/-- The number of bytes that a literal matches at the beginning of a text, character by character. -/
def literalAt (alike : Char → Char → Bool) : List Char → List Char → Option Nat
  | [], _ => some 0
  | _ :: _, [] => none
  | e :: es, c :: cs => if alike e c then (literalAt alike es cs).map (c.utf8Size + ·) else none

def sameLower (a b : Char) : Bool := Unicode.lower a == Unicode.lower b

/-- The kinds of rules, with references of type `τ`. -/
inductive Kind (τ : Type) where
  | terminal (matcher : Matcher)
  | text (literal : List Char) (ignoreCase : Bool)
  | sequence (parts : List Nat)
  | choice (options : List Nat)
  | rep (body : Nat) (least : Nat) (most : Option Nat)
  | ahead (body : Nat)
  | notAhead (body : Nat)
  | upTo (stop : Nat)
  | ref (name : String) (target : τ)
  | inherited (name : String) (target : τ)
  | label (body : Nat)

namespace Kind

/-- Wrappers pass the match of another rule on and have no node of their own in a match tree. -/
def isWrapper {τ : Type} : Kind τ → Bool
  | choice _ | ref _ _ | inherited _ _ | label _ => true
  | _ => false

open Text.Outline in
def outline {τ : Type} : Kind τ → String
  | terminal matcher => tuple "Terminal" [matcher.outline]
  | text literal ignoreCase =>
    record "StringTerminal"
      [("literal", Text.quote (String.ofList literal)), ("case_insensitive", bool ignoreCase)]
  | sequence parts => tuple "Sequence" [list (parts.map rule)]
  | choice options => tuple "Choice" [list (options.map rule)]
  | rep body least most =>
    record "Repeat" [("rule", rule body), ("min", nat least), ("max", option (most.map nat))]
  | ahead body => tuple "AndPredicate" [rule body]
  | notAhead body => tuple "NotPredicate" [rule body]
  | upTo stop => tuple "ButPredicate" [rule stop]
  | ref name _ => tuple "Alias" [proxy name]
  | inherited name _ => tuple "Super" [proxy name]
  | label body => tuple "Label" [rule body]
where
  rule (id : Nat) : String := tuple "RuleId" [nat id]
  proxy (name : String) : String := tuple "Proxy" [Text.quote name]

end Kind

structure Rule (τ : Type) where
  kind : Kind τ
  name : Option String := none
  label : Option String := none
  extension : Option Extension := none

namespace Rule

/-- A rule without name, label and extension. -/
def ofKind {τ : Type} (kind : Kind τ) : Rule τ := { kind }

def extend {τ : Type} (rule : Rule τ) (outer : Extension) : Rule τ :=
  { rule with extension := some ((rule.extension.map (·.merge outer)).getD outer) }

/-- The name and the label of the rule, as far as it has them. -/
def names {τ : Type} (rule : Rule τ) : List String := rule.name.toList ++ rule.label.toList

open Text.Outline in
def outline {τ : Type} (rule : Rule τ) : String :=
  record "Rule"
    [("kind", rule.kind.outline), ("name", option (rule.name.map Text.quote)),
      ("label", option (rule.label.map Text.quote)),
      ("extension", option (rule.extension.map Extension.outline))]

end Rule

end Peg
