import Peg.Expr
import Peg.Grammar.Basic

/-!
# Drafts

A draft is a grammar as it is written down: definitions by expressions, the grammars to include and
perhaps the name of the root.
-/

namespace Peg

structure Draft where
  name : String
  definitions : List (String × Expr) := []
  root : Option String := none
  includes : List Nat := []

open Text.Outline in
def Library.outlineDraft (lib : Library) (draft : Draft) : String :=
  record "GrammarBuilder"
    [("name", Text.quote draft.name),
      ("definitions",
        list (draft.definitions.map fun (name, e) => tuple "" [Text.quote name, e.outline])),
      ("root", option (draft.root.map Text.quote)),
      ("includes", list (draft.includes.map fun g => ((lib.grammar? g).map lib.outlineGrammar).getD ""))]

end Peg
