import Peg.Grammar.Draft
import Peg.Grammar.Lowering

/-!
# Adding grammars to a library

A draft becomes a grammar once all its expressions are lowered and all references are resolved. A
plain reference is looked up in the grammar itself and then in the included grammars, a reference to
the rule above only in the included ones. The root is the rule of the name given, or else the first
rule defined, or else the root of the last included grammar.
-/

namespace Peg

def Kind.resolve (ref inherited : (name rule : String) → Except GrammarError RuleRef) :
    Kind String → Except GrammarError (Kind RuleRef)
  | .terminal matcher => .ok (.terminal matcher)
  | .text literal ignoreCase => .ok (.text literal ignoreCase)
  | .sequence parts => .ok (.sequence parts)
  | .choice options => .ok (.choice options)
  | .rep body least most => .ok (.rep body least most)
  | .ahead body => .ok (.ahead body)
  | .notAhead body => .ok (.notAhead body)
  | .upTo stop => .ok (.upTo stop)
  | .ref name rule => (ref name rule).map (.ref name)
  | .inherited name rule => (inherited name rule).map (.inherited name)
  | .label body => .ok (.label body)

def Rule.resolve (ref inherited : (name rule : String) → Except GrammarError RuleRef)
    (r : Rule String) : Except GrammarError (Rule RuleRef) :=
  (r.kind.resolve ref inherited).map fun kind =>
    { kind, name := r.name, label := r.label, extension := r.extension }

namespace Library

/-- What a name stands for in a grammar about to be added, which defines the names given. -/
def lookupDraft (lib : Library) (draft : Draft) (defined : List (String × Nat)) (name : String) :
    Option RuleRef :=
  match defined.lookup name with
  | some rule => some ⟨lib.grammars.size, rule⟩
  | none => lib.lookupIncluded draft.includes name

def rootOf (lib : Library) (draft : Draft) (defined : List (String × Nat)) :
    Except GrammarError RuleRef :=
  match draft.root with
  | some name =>
    match lib.lookupDraft draft defined name with
    | some root => .ok root
    | none => .error (.undefinedRoot draft.name name)
  | none =>
    match defined with
    | (_, rule) :: _ => .ok ⟨lib.grammars.size, rule⟩
    | [] =>
      match draft.includes.getLast?.bind lib.grammar? with
      | some inner => .ok inner.root
      | none => .error (.emptyGrammar draft.name)

/-- The grammar of a draft, ready to be added to the library. -/
def build (lib : Library) (draft : Draft) : Except GrammarError Grammar := do
  let (arena, defined) ← lowerDefinitions draft.name #[] [] draft.definitions
  let ref (name rule : String) : Except GrammarError RuleRef :=
    match lib.lookupDraft draft defined name with
    | some target => .ok target
    | none => .error (.undefinedRule draft.name rule name)
  let inherited (name rule : String) : Except GrammarError RuleRef :=
    match lib.lookupIncluded draft.includes name with
    | some target => .ok target
    | none => .error (.undefinedInherited draft.name rule name)
  let rules ← arena.mapM (Rule.resolve ref inherited)
  let root ← lib.rootOf draft defined
  .ok { name := draft.name, rules, defined, includes := draft.includes, root }

def add (lib : Library) (draft : Draft) : Except GrammarError Library :=
  (lib.build draft).map fun grammar => ⟨lib.grammars.push grammar⟩

end Library

end Peg
