import Peg.Derivation.Reading
import Peg.Grammar.Basic

/-!
# Reading derivations as matches

Every branch of a derivation becomes a node, and the wrappers directly around it join its chain. The
names of a node are those of the rules on its chain, and of the members that these define under one
name the outermost counts.
-/

namespace Peg

def Library.chainExtension (lib : Library) (chain : List RuleRef) : Extension :=
  (chain.filterMap fun r => (lib.rule? r).bind (·.extension)).foldr (fun outer e => e.merge outer) {}

/-- The names on a chain of rules, outermost first and each once. -/
def Library.chainNames (lib : Library) (chain : List RuleRef) : List String :=
  (chain.flatMap fun r => ((lib.rule? r).map Rule.names).getD []).eraseDups

namespace Match

mutual

/-- Reads on inside `outer`, the wrappers of `whole` that were passed, outermost first. -/
def ofDerivationIn (lib : Library) (source : List Char) (place : Place) (whole : Derivation)
    (outer : List RuleRef) : Derivation → Match
  | .wrapped r inner => ofDerivationIn lib source place whole (outer ++ [r]) inner
  | .branch r _ parts =>
    let chain := outer ++ [r]
    withMembers
      { source, place, derivation := whole, primary := r, names := lib.chainNames chain }
      (ofDerivations lib source place parts)
      (lib.chainExtension chain)

def ofDerivations (lib : Library) (source : List Char) (place : Place) :
    List Derivation → List Match
  | [] => []
  | d :: ds =>
    ofDerivationIn lib source place d [] d :: ofDerivations lib source (place.advance d.length) ds

end

def ofDerivation (lib : Library) (source : List Char) (place : Place) (d : Derivation) : Match :=
  ofDerivationIn lib source place d [] d

/-- The match that events tell of, none if they are not those of a single derivation. -/
def ofEvents? (lib : Library) (source : List Char) (place : Place) (events : List Event) :
    Option Match :=
  (Derivation.ofEvents? lib.isWrapper events).map (ofDerivation lib source place)

end Match

end Peg
