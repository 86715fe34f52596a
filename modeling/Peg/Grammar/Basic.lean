import Peg.Rule

/-!
# Grammars and libraries

A library holds grammars, and a grammar may include grammars that were added to the library before
it. A name stands for the rule that the grammar itself defines, or else for the rule that it stands
for in the last included grammar that knows the name, found by the same rule.
-/

namespace Peg

structure Grammar where
  name : String
  rules : Array (Rule RuleRef)
  /-- The named rules in the order of their definition. -/
  defined : List (String × Nat)
  /-- The numbers of the included grammars in the order of inclusion. -/
  includes : List Nat
  root : RuleRef

namespace Grammar

def ruleNames (g : Grammar) : List String := g.defined.map (·.1)

def hasRule (g : Grammar) (name : String) : Bool := (g.defined.lookup name).isSome

end Grammar

structure Library where
  grammars : Array Grammar := #[]

namespace Library

def grammar? (lib : Library) (g : Nat) : Option Grammar := lib.grammars[g]?

def rule? (lib : Library) (r : RuleRef) : Option (Rule RuleRef) :=
  (lib.grammar? r.grammar).bind fun g => g.rules[r.rule]?

/-- The rule a name stands for in a grammar. -/
def lookup (lib : Library) (g : Nat) (name : String) : Option RuleRef :=
  match lib.grammar? g with
  | none => none
  | some grammar =>
    match grammar.defined.lookup name with
    | some rule => some ⟨g, rule⟩
    | none =>
      grammar.includes.reverse.findSome? fun inner =>
        if inner < g then lib.lookup inner name else none
termination_by g

/-- The rule a name stands for in the last of some grammars that knows it. -/
def lookupIncluded (lib : Library) (includes : List Nat) (name : String) : Option RuleRef :=
  includes.reverse.findSome? fun inner => lib.lookup inner name

def isWrapper (lib : Library) (r : RuleRef) : Bool := (lib.rule? r).any (·.kind.isWrapper)

def nameOf (lib : Library) (r : RuleRef) : Option String := (lib.rule? r).bind (·.name)

/-- The name of a rule as shown, also of one without. -/
def shownName (lib : Library) (r : RuleRef) : String := (lib.nameOf r).getD "<anonymous>"

def grammarName (lib : Library) (g : Nat) : String := ((lib.grammar? g).map (·.name)).getD ""

open Text.Outline in
def outlineGrammar (lib : Library) (g : Grammar) : String :=
  record "Grammar"
    [("name", Text.quote g.name), ("rules", list (g.ruleNames.map Text.quote)),
      ("includes", list (g.includes.map fun inner => Text.quote (lib.grammarName inner)))]

open Text.Outline in
def outlineRule (lib : Library) (r : RuleRef) : String :=
  record "RuleHandle"
    [("grammar", Text.quote (lib.grammarName r.grammar)),
      ("rule", ((lib.rule? r).map Rule.outline).getD "")]

def outlineEvent (lib : Library) : Event → String
  | .opened r => Text.Outline.tuple "Open" [lib.shownName r]
  | .closed => "Close"
  | .length n => Text.Outline.tuple "Length" [toString n]

end Library

end Peg
