import Peg.Text.Quoted

/-!
# Errors of grammar definitions
-/

namespace Peg

/-- The ways in which an expression can be empty of parts. -/
inductive Compound where
  | sequence
  | choice

def Compound.name : Compound → String
  | sequence => "sequence"
  | choice => "choice"

/-- Why the definition of a grammar was refused. -/
inductive GrammarError where
  | undefinedRule (grammar rule name : String)
  | undefinedInherited (grammar rule name : String)
  | undefinedRoot (grammar name : String)
  | duplicateRule (grammar name : String)
  | invalidPattern (grammar rule : String)
  | invalidRange (grammar rule : String) (first last : Char)
  | invalidRepeat (grammar rule : String) (least most : Nat)
  | emptyGrammar (grammar : String)
  | emptyRule (grammar rule : String) (kind : Compound)

namespace GrammarError

def message : GrammarError → String
  | undefinedRule grammar rule name =>
    "rule " ++ rule ++ " of grammar " ++ grammar ++ " refers to undefined rule " ++ name
  | undefinedInherited grammar rule name =>
    "rule " ++ rule ++ " of grammar " ++ grammar ++ " refers to " ++ name
      ++ ", which no included grammar defines"
  | undefinedRoot grammar name => "root " ++ name ++ " of grammar " ++ grammar ++ " is undefined"
  | duplicateRule grammar name =>
    "rule " ++ name ++ " is defined more than once in grammar " ++ grammar
  | invalidPattern grammar rule =>
    "rule " ++ rule ++ " of grammar " ++ grammar ++ " has an invalid pattern"
  | invalidRange grammar rule first last =>
    "rule " ++ rule ++ " of grammar " ++ grammar ++ " has an empty range "
      ++ Text.quoteChar first ++ ".." ++ Text.quoteChar last
  | invalidRepeat grammar rule least most =>
    "rule " ++ rule ++ " of grammar " ++ grammar ++ " repeats between " ++ toString least
      ++ " and " ++ toString most ++ " times"
  | emptyGrammar grammar => "grammar " ++ grammar ++ " has no rules"
  | emptyRule grammar rule kind =>
    "rule " ++ rule ++ " of grammar " ++ grammar ++ " contains an empty " ++ kind.name

end GrammarError

end Peg
