import Mathlib.Data.List.Forall2
import Peg.Proofs.Engine.Shift
import Peg.Proofs.Match.Tiles
import Peg.Proofs.Parse.Test

/-!
# Parses further on in a text

A parse that begins at a later place of a text has the result of the parse of the rest of the text
alone, with all offsets greater by that of the place. Main statement: `Library.parse_shift`.
-/

namespace Peg

namespace Match

/-- A node of a match and the node of another match that tells the same, `k` bytes further on. -/
structure NodeShifted (k : Nat) (m m' : Match) : Prop where
  offset : m'.offset = m.offset + k
  length : m'.length = m.length
  text : m'.text = m.text
  events : m'.events = m.events
  rule : m'.rule = m.rule
  names : m'.names = m.names

/-- The two matches have the same nodes in the same order, those of the second `k` bytes further on
in their text. -/
def Shifted (k : Nat) (m m' : Match) : Prop :=
  m'.events = m.events ∧ List.Forall₂ (NodeShifted k) m.nodes m'.nodes

section OfDerivation

variable (lib : Library) (source source' : List Char) (k : Nat)

theorem nodeShifted_ofDerivation (p : Place) (d : Derivation) :
    NodeShifted k (ofDerivation lib source p d) (ofDerivation lib source' (p.shift k) d) := by
  constructor <;>
    simp [Match.offset, Match.length, Match.text, Match.events, Match.rule, Match.names,
      ofDerivation_node, Place.rest_shift, Place.offset_shift]

mutual

theorem forall₂_nodes_parts (p : Place) (d : Derivation) :
    List.Forall₂ (NodeShifted k) (nodesAll (ofDerivations lib source p d.parts))
      (nodesAll (ofDerivations lib source' (p.shift k) d.parts)) := by
  cases d with
  | branch r n parts => exact forall₂_nodesAll p parts
  | wrapped r inner =>
      have hinner := forall₂_nodes_parts p inner
      exact hinner

theorem forall₂_nodesAll (p : Place) (ds : List Derivation) :
    List.Forall₂ (NodeShifted k) (nodesAll (ofDerivations lib source p ds))
      (nodesAll (ofDerivations lib source' (p.shift k) ds)) := by
  cases ds with
  | nil =>
      simp only [ofDerivations, nodesAll]
      exact .nil
  | cons d ds =>
      have hparts := forall₂_nodes_parts p d
      have hrest := forall₂_nodesAll (p.advance d.length) ds
      simp only [ofDerivations_cons, nodesAll, nodes_eq, ofDerivation_children,
        Place.advance_shift]
      exact List.rel_append (.cons (nodeShifted_ofDerivation lib source source' k p d) hparts) hrest

end

theorem shifted_ofDerivation (p : Place) (d : Derivation) :
    Shifted k (ofDerivation lib source p d) (ofDerivation lib source' (p.shift k) d) := by
  have hnode := nodeShifted_ofDerivation lib source source' k p d
  refine ⟨hnode.events, ?_⟩
  rw [nodes_eq, nodes_eq, ofDerivation_children, ofDerivation_children]
  exact .cons hnode (forall₂_nodes_parts lib source source' k p d)

end OfDerivation

end Match

/-- Both parses matched the same, or both failed for the same reason, the second `k` bytes further
on. -/
inductive ShiftedResult (k : Nat) : Except ParseError Match → Except ParseError Match → Prop
  | ok {m m' : Match} : m.Shifted k m' → ShiftedResult k (.ok m) (.ok m')
  | error {e e' : ParseError} : e'.kind = e.kind → e'.failureOffset = e.failureOffset + k →
    ShiftedResult k (.error e) (.error e')

namespace ShiftedResult

variable {k : Nat} {source source' : List Char}

theorem ofOffset (kind : ParseErrorKind) {offset offset' : Nat} (h : offset' = offset + k) :
    ShiftedResult k (.error (.ofOffset kind source offset))
      (.error (.ofOffset kind source' offset')) := by
  refine .error ?_ ?_
  · rw [ParseError.kind_ofOffset, ParseError.kind_ofOffset]
  · rw [ParseError.failureOffset_ofOffset, ParseError.failureOffset_ofOffset, h]

variable {lib : Library} {options options' : ParseOptions} {p q : Place} (hq : q = p.shift k)
  (hfull : options'.requireFullConsumption = options.requireFullConsumption)
  (hsize : byteLength source' = byteLength source + k)

include hq hfull hsize

theorem verdict (outcome : Option Derivation) {furthest furthest' : Nat}
    (hfurthest : furthest' = furthest + k) :
    ShiftedResult k (lib.verdict options source p outcome furthest)
      (lib.verdict options' source' q outcome furthest') := by
  subst hq
  cases outcome with
  | none => exact .ofOffset .noMatch hfurthest
  | some d =>
      have hend : ((p.shift k).offset + d.length != byteLength source') =
          (p.offset + d.length != byteLength source) := by
        have hiff : (p.shift k).offset + d.length = byteLength source' ↔
            p.offset + d.length = byteLength source := by
          rw [hsize, Place.offset_shift]
          omega
        exact congrArg not (decide_eq_decide.2 hiff)
      simp only [Library.verdict, hfull, hend]
      split
      · refine .ofOffset .incomplete ?_
        rw [hfurthest, Place.offset_shift]
        omega
      · exact .ok (Match.shifted_ofDerivation lib source source' k p d)

theorem parseResult (g : Nat) {x y : Option Derivation × State} (h : Parallel k x y) :
    ShiftedResult k (lib.parseResult g options source p x.1 x.2.cursor).result
      (lib.parseResult g options' source' q y.1 y.2.cursor).result := by
  have hfurthest := h.shifted.furthest
  have hcalls' := congrArg CallBudget.exceeded h.shifted.calls
  have hnesting' := congrArg Nesting.exceeded h.shifted.nesting
  cases hcalls : x.2.cursor.calls.exceeded with
  | true =>
      rw [Library.parseResult_of_calls hcalls,
        Library.parseResult_of_calls (hcalls'.trans hcalls)]
      exact .ofOffset .callLimit hfurthest
  | false =>
      cases hnesting : x.2.cursor.nesting.exceeded with
      | true =>
          rw [Library.parseResult_of_nesting hcalls hnesting,
            Library.parseResult_of_nesting (hcalls'.trans hcalls) (hnesting'.trans hnesting)]
          exact .ofOffset .depthLimit hfurthest
      | false =>
          have hreached : x.2.cursor.reachedLimit = false := by simp [Cursor.reachedLimit, *]
          rw [Library.parseResult_of_unlimited hreached,
            Library.parseResult_of_unlimited (h.shifted.reachedLimit.trans hreached), h.outcome]
          exact .verdict hq hfull hsize x.1 hfurthest

end ShiftedResult

namespace Library

theorem shifted_parseStart (options : ParseOptions) (text : List Char) (p : Place) :
    (parseStart { options with startOffset := 0 } (.new p.rest)).Shifted p.offset
      (parseStart options (.ofPlace text p)) where
  place := by
    show p = (Place.start p.rest).shift p.offset
    simp [Place.shift, Place.start]
  furthest := (Nat.zero_add p.offset).symm
  calls := rfl
  nesting := rfl
  memo := by
    show Option.Rel _ (if options.memoize then some ({} : Memo) else none)
      (if options.memoize then some ({} : Memo) else none)
    split
    · exact .some fun r offset => by simp [Memo.outcome?]
    · exact .none

/-- Whatever the options are, parsing a text from one of its places on gives what parsing the rest of
the text does, that many bytes further on: the same events, with every node shifted, or an error of
the same kind, with its offset shifted. -/
theorem parse_shift (lib : Library) {g : Nat} (text : String) (options : ParseOptions) {p : Place}
    {root : RuleRef} (hroot : lib.parseRoot g options.root = some root)
    (hp : Place.at? text.toList options.startOffset = some p) :
    ShiftedResult options.startOffset
      (lib.parse g (String.ofList p.rest) { options with startOffset := 0 })
      (lib.parse g text options) := by
  obtain ⟨hin, hoffset⟩ := Place.at?_eq_some_iff.1 hp
  have hcursor : Cursor.at? text.toList options.startOffset = some (.ofPlace text.toList p) := by
    simp [Cursor.at?, hp]
  have hsize : byteLength text.toList = byteLength p.rest + p.offset := by
    rw [← hin.offset_add_rest, Nat.add_comm]
  have hruns := lib.run_inStep p.offset root (shifted_parseStart options text.toList p)
  have hplace : p = (Place.start p.rest).shift p.offset := by simp [Place.shift, Place.start]
  let start : ParseOptions := { options with startOffset := 0 }
  have hroot' : lib.parseRoot g start.root = some root := hroot
  have hcursor' : Cursor.at? (String.ofList p.rest).toList start.startOffset =
      some (.new p.rest) := by
    rw [String.toList_ofList]
    exact Cursor.at?_zero p.rest
  rw [← hoffset, parse_eq hroot hcursor, parse_eq hroot' hcursor', String.toList_ofList]
  exact .parseResult hplace rfl hsize g hruns

/-- Two pairs of brackets match behind another character as they do alone. -/
theorem parse_shift_brackets :
    bracketLibrary.parseRoot 0 none = some ⟨0, 4⟩ ∧
      Place.at? "é(())".toList 2 = some ⟨2, "(())".toList⟩ ∧
      ∃ m m', bracketLibrary.parse 0 "(())" {} = .ok m ∧
        bracketLibrary.parse 0 "é(())" { startOffset := 2 } = .ok m' ∧ m.Shifted 2 m' := by
  have hroot : bracketLibrary.parseRoot 0 none = some ⟨0, 4⟩ := by decide +kernel
  have hp : Place.at? "é(())".toList 2 = some ⟨2, "(())".toList⟩ := by decide +kernel
  have hok : (bracketLibrary.parse 0 "(())" {}).toOption.isSome = true := by decide +kernel
  have hshift := parse_shift bracketLibrary "é(())" { startOffset := 2 } hroot hp
  rw [String.ofList_toList] at hshift
  generalize hparse : bracketLibrary.parse 0 "(())" {} = result at hshift hok
  generalize hparse' : bracketLibrary.parse 0 "é(())" { startOffset := 2 } = result' at hshift
  cases hshift with
  | ok h => exact ⟨hroot, hp, _, _, rfl, rfl, h⟩
  | error _ _ => cases hok

end Library

end Peg
