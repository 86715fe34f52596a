import Peg.Proofs.Grammar.Reorder
import Peg.Proofs.Parse.Shift

/-!
# Parses with definitions in another order

If the root of a draft is given by its name, it does not matter in which order the definitions stand:
the grammars match the same texts by the same trees of rules and fail with the same errors, whatever
the limits are and whether or not outcomes are kept in a memo. Main statement:
`Library.parse_reorder`.
-/

namespace Peg

namespace Match

mutual

/-- The second match is the first one under other numbers of rules: the nodes have the same places,
lengths, names and members, and the rules of the second one are those of the first one renumbered. -/
inductive Renumbered (θ : Translation) : Match → Match → Prop
  | mk {node : Node} {children children' : List Match} {e : Extension} :
      RenumberedAll θ children children' →
      Renumbered θ (withMembers node children e)
        (withMembers { node with derivation := θ.derivation node.derivation,
                                 primary := θ.rule node.primary } children' e)

inductive RenumberedAll (θ : Translation) : List Match → List Match → Prop
  | nil : RenumberedAll θ [] []
  | cons {m m' : Match} {ms ms' : List Match} : Renumbered θ m m' → RenumberedAll θ ms ms' →
      RenumberedAll θ (m :: ms) (m' :: ms')

end

end Match

namespace Library.Renumbers

variable {θ : Translation} {lib lib' : Library}

theorem chainNames (h : lib.Renumbers θ lib') (chain : List RuleRef) :
    lib'.chainNames (chain.map θ.rule) = lib.chainNames chain := by
  have hnames (r : RuleRef) : ((lib'.rule? (θ.rule r)).map Rule.names).getD [] =
      ((lib.rule? r).map Rule.names).getD [] := by
    rw [h r, Option.map_map]
    rfl
  simp only [Library.chainNames, List.flatMap_map, hnames]

theorem chainExtension (h : lib.Renumbers θ lib') (chain : List RuleRef) :
    lib'.chainExtension (chain.map θ.rule) = lib.chainExtension chain := by
  have hextension (r : RuleRef) : (lib'.rule? (θ.rule r)).bind (·.extension) =
      (lib.rule? r).bind (·.extension) := by
    rw [h r, Option.bind_map]
    rfl
  simp only [Library.chainExtension, List.filterMap_map, Function.comp_def, hextension]

mutual

theorem ofDerivationIn (h : lib.Renumbers θ lib') (source : List Char) (p : Place)
    (whole : Derivation) (outer : List RuleRef) (d : Derivation) :
    Match.Renumbered θ (.ofDerivationIn lib source p whole outer d)
      (.ofDerivationIn lib' source p (θ.derivation whole) (outer.map θ.rule) (θ.derivation d)) := by
  cases d with
  | branch r n parts =>
      have hchain : outer.map θ.rule ++ [θ.rule r] = (outer ++ [r]).map θ.rule := by simp
      simp only [Translation.derivation, Match.ofDerivationIn, hchain, h.chainNames,
        h.chainExtension]
      exact .mk (ofDerivations h source p parts)
  | wrapped r inner =>
      have hinner := ofDerivationIn h source p whole (outer ++ [r]) inner
      simpa [Translation.derivation, Match.ofDerivationIn] using hinner

theorem ofDerivations (h : lib.Renumbers θ lib') (source : List Char) (p : Place)
    (ds : List Derivation) :
    Match.RenumberedAll θ (Match.ofDerivations lib source p ds)
      (Match.ofDerivations lib' source p (θ.derivations ds)) := by
  cases ds with
  | nil => exact .nil
  | cons d ds =>
      have hd := ofDerivationIn h source p d [] d
      have hds := ofDerivations h source (p.advance d.length) ds
      simp only [Translation.derivations, Match.ofDerivations, Translation.length_derivation]
      exact .cons hd hds

end

theorem ofDerivation (h : lib.Renumbers θ lib') (source : List Char) (p : Place) (d : Derivation) :
    Match.Renumbered θ (.ofDerivation lib source p d)
      (.ofDerivation lib' source p (θ.derivation d)) :=
  h.ofDerivationIn source p d [] d

end Library.Renumbers

/-- Both parses matched in the same way, up to the numbers of rules, or failed with the same error. -/
inductive RenumberedResult (θ : Translation) :
    Except ParseError Match → Except ParseError Match → Prop
  | ok {m m' : Match} : m.Renumbered θ m' → RenumberedResult θ (.ok m) (.ok m')
  | error (e : ParseError) : RenumberedResult θ (.error e) (.error e)

namespace Library

variable {θ : Translation} {lib lib' : Library} {g : Nat}

theorem Renumbers.verdict (h : lib.Renumbers θ lib') (options : ParseOptions) (source : List Char)
    (p : Place) (outcome : Option Derivation) (furthest : Nat) :
    RenumberedResult θ (lib.verdict options source p outcome furthest)
      (lib'.verdict options source p (outcome.map θ.derivation) furthest) := by
  cases outcome with
  | none => exact .error _
  | some d =>
      simp only [Library.verdict, Option.map_some, Translation.length_derivation]
      split
      · exact .error _
      · exact .ok (h.ofDerivation source p d)

theorem Renumbers.parseResult (h : lib.Renumbers θ lib') (hbytes : θ.bytes = 0)
    (options : ParseOptions) (source : List Char) (p : Place) {x y : Option Derivation × State}
    (hruns : Mirrors θ (Option.map θ.derivation) x y) :
    RenumberedResult θ (lib.parseResult g options source p x.1 x.2.cursor).result
      (lib'.parseResult g options source p y.1 y.2.cursor).result := by
  -- a translation that moves no offsets leaves errors as they are
  have hfurthest := hruns.translated.furthest
  rw [hbytes, Nat.add_zero] at hfurthest
  have hcalls' := congrArg CallBudget.exceeded hruns.translated.calls
  have hnesting' := congrArg Nesting.exceeded hruns.translated.nesting
  cases hcalls : x.2.cursor.calls.exceeded with
  | true =>
      rw [parseResult_of_calls hcalls, parseResult_of_calls (hcalls'.trans hcalls), hfurthest]
      exact .error _
  | false =>
      cases hnesting : x.2.cursor.nesting.exceeded with
      | true =>
          rw [parseResult_of_nesting hcalls hnesting,
            parseResult_of_nesting (hcalls'.trans hcalls) (hnesting'.trans hnesting), hfurthest]
          exact .error _
      | false =>
          have hreached : x.2.cursor.reachedLimit = false := by simp [Cursor.reachedLimit, *]
          rw [parseResult_of_unlimited hreached,
            parseResult_of_unlimited (hruns.translated.reachedLimit.trans hreached), hfurthest,
            hruns.outcome]
          exact h.verdict options source p x.1 _

theorem translated_parseStart (hbytes : θ.bytes = 0) (options : ParseOptions) (cursor : Cursor) :
    (parseStart options cursor).Translated θ (parseStart options cursor) where
  place := by simp [Translation.place, hbytes]
  furthest := by rw [hbytes, Nat.add_zero]
  calls := rfl
  nesting := rfl
  memo := by
    show Option.Rel _ (if options.memoize then some ({} : Memo) else none)
      (if options.memoize then some ({} : Memo) else none)
    split
    · exact .some fun r offset => by simp [Memo.outcome?]
    · exact .none

theorem Renumbers.parse (h : lib.Renumbers θ lib') (hbytes : θ.bytes = 0) (text : String)
    (options : ParseOptions)
    (hroot : lib'.parseRoot g options.root = (lib.parseRoot g options.root).map θ.rule) :
    RenumberedResult θ (lib.parse g text options) (lib'.parse g text options) := by
  cases hfirst : lib.parseRoot g options.root with
  | none =>
      rw [hfirst] at hroot
      simp only [Library.parse, parseLogged, hfirst, hroot, Option.map_none]
      exact .error _
  | some root =>
      rw [hfirst] at hroot
      cases hcursor : Cursor.at? text.toList options.startOffset with
      | none =>
          simp only [Library.parse, parseLogged, hfirst, hroot, Option.map_some, hcursor]
          exact .error _
      | some cursor =>
          rw [parse_eq hfirst hcursor, parse_eq hroot hcursor]
          exact h.parseResult hbytes options _ _
            (run_mirrored h root (translated_parseStart hbytes options cursor))

/-- If the root of a draft is given by its name, the definitions may stand in any order: either both
drafts are accepted or none is, and the libraries with the grammars have the same rules but for their
numbers, which lead from the one to the other, and give the same results for every text, whatever the
options of the parse are. -/
theorem parse_reorder {lib : Library} {draft : Draft} {definitions : List (String × Expr)}
    (hlib : lib.Built) (hincludes : ∀ inner ∈ draft.includes, inner < lib.grammars.size)
    {root : String} (hroot : draft.root = some root) (h : definitions.Perm draft.definitions) :
    ((∃ later, lib.add draft = .ok later) ↔
      ∃ later', lib.add (draft.withDefinitions definitions) = .ok later') ∧
    ∀ later later', lib.add draft = .ok later →
      lib.add (draft.withDefinitions definitions) = .ok later' →
        ∃ θ : Translation, later.Renumbers θ later' ∧
          ∀ (text : String) (options : ParseOptions),
            RenumberedResult θ (later.parse lib.grammars.size text options)
              (later'.parse lib.grammars.size text options) := by
  have haccepts := exists_build_iff hincludes
  have haccepts' : _ ↔ (draft.withDefinitions definitions).WellFormed lib :=
    exists_build_iff hincludes
  constructor
  · rw [exists_add_iff, exists_add_iff, haccepts, haccepts', Draft.wellFormed_reorder h hroot]
  · intro later later' hadd hadd'
    obtain ⟨grammar, hbuild, rfl⟩ := exists_build_of_add hadd
    obtain ⟨grammar', hbuild', rfl⟩ := exists_build_of_add hadd'
    have hnames := (haccepts.1 ⟨grammar, hbuild⟩).distinct
    have hrenumbers := renumbers_reorder hlib.closed h hnames hbuild hbuild'
    refine ⟨_, hrenumbers, fun text options => ?_⟩
    exact hrenumbers.parse rfl text options
      (parseRoot_reorder hlib.closed h hnames hbuild hbuild' hincludes hroot options.root)

/-- Words of letters. -/
def words : Draft where
  name := "Words"
  definitions := [("word", .oneOrMore (.ref "letter")), ("letter", .range 'a' 'z')]
  root := some "word"

/-- With the letters defined before the words, a word is matched by rules of other numbers and
otherwise in the same way. -/
theorem parse_reorder_words :
    words.root = some "word" ∧ words.definitions.reverse.Perm words.definitions ∧
      ∃ later later' m m' θ, Library.add {} words = .ok later ∧
        Library.add {} (words.withDefinitions words.definitions.reverse) = .ok later' ∧
        later.parse 0 "ab" {} = .ok m ∧ later'.parse 0 "ab" {} = .ok m' ∧
        m.rule = ⟨0, 1⟩ ∧ m'.rule = ⟨0, 2⟩ ∧ m.Renumbered θ m' := by
  have hperm : words.definitions.reverse.Perm words.definitions := List.reverse_perm _
  let root (draft : Draft) : Option (Option RuleRef) := (Library.add {} draft).toOption.map
    fun later => (later.parse 0 "ab" {}).toOption.map Match.rule
  have hfirst : root words = some (some ⟨0, 1⟩) := by decide +kernel
  have hsecond : root (words.withDefinitions words.definitions.reverse) = some (some ⟨0, 2⟩) := by
    decide +kernel
  obtain ⟨-, hresults⟩ := parse_reorder .empty (fun inner hinner => by cases hinner) rfl hperm
  cases hadd : Library.add {} words with
  | error e =>
      simp only [root, hadd] at hfirst
      cases hfirst
  | ok later =>
      cases hadd' : Library.add {} (words.withDefinitions words.definitions.reverse) with
      | error e =>
          simp only [root, hadd'] at hsecond
          cases hsecond
      | ok later' =>
          simp only [root, hadd, hadd', Except.toOption, Option.map_some, Option.some.injEq]
            at hfirst hsecond
          obtain ⟨θ, -, hparse⟩ := hresults later later' hadd hadd'
          have hboth : RenumberedResult θ (later.parse 0 "ab" {}) (later'.parse 0 "ab" {}) :=
            hparse "ab" {}
          generalize hresult : later.parse 0 "ab" {} = result at hboth hfirst
          generalize hresult' : later'.parse 0 "ab" {} = result' at hboth hsecond
          cases hboth with
          | error e => cases hfirst
          | @ok m m' h =>
              exact ⟨rfl, hperm, later, later', m, m', θ, rfl, rfl, hresult, hresult',
                Option.some.inj hfirst, Option.some.inj hsecond, h⟩

end Library

end Peg
