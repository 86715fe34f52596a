import Peg.Proofs.Grammar.Accepted
import Peg.Proofs.Parse.Basic

/-!
# Names are resolved once and for all

What a reference stands for is settled when its grammar is built. However the rule is reached later
on, and whatever the grammars on the way there define, the reference is carried out by the rule that
its own grammar found, and by names and roots it makes no difference through which grammar a rule is
asked for. Main statement: `Library.names_static`.
-/

namespace Peg

namespace Library

/-! ## Libraries and their drafts -/

/-- Adding the drafts one after the other leads to the library. -/
inductive BuiltFrom : Library → List Draft → Prop
  | empty : BuiltFrom {} []
  | add {lib later : Library} {drafts : List Draft} {draft : Draft} : BuiltFrom lib drafts →
      (∀ g ∈ draft.includes, g < lib.grammars.size) → lib.add draft = .ok later →
      BuiltFrom later (drafts ++ [draft])

/-- The root of a grammar that was built from a draft: the rule that its name stands for if the root
was given by one, else the first rule defined, else the root of the last inclusion. -/
def draftRoot? (lib : Library) (g : Nat) (draft : Draft) : Option RuleRef :=
  match draft.root with
  | some name => lib.lookup g name
  | none =>
    match draft.definitions with
    | (name, _) :: _ => lib.lookup g name
    | [] => (draft.includes.getLast?.bind lib.grammar?).map (·.root)

/-- The grammar is what the draft says. -/
structure Realizes (lib : Library) (g : Nat) (draft : Draft) (grammar : Grammar) : Prop where
  found : lib.grammar? g = some grammar
  includes : grammar.includes = draft.includes
  names : grammar.ruleNames = draft.definitions.map (·.1)
  root : lib.draftRoot? g draft = some grammar.root

variable {lib : Library} {drafts : List Draft} {draft : Draft} {grammar : Grammar} {g : Nat}
  {name : String} {r target : RuleRef}

namespace BuiltFrom

theorem built (h : lib.BuiltFrom drafts) : lib.Built := by
  induction h with
  | empty => exact .empty
  | add _ hincludes hadd ih => exact .add ih hincludes hadd

theorem length (h : lib.BuiltFrom drafts) : drafts.length = lib.grammars.size := by
  induction h with
  | empty => rfl
  | add _ _ hadd ih =>
      obtain ⟨grammar, -, rfl⟩ := exists_build_of_add hadd
      simp [ih]

end BuiltFrom

theorem ruleNames_build (hbuild : lib.build draft = .ok grammar) :
    grammar.ruleNames = draft.definitions.map (·.1) := by
  have hlowers := lowerDefinitions_reports draft lib draft.name #[] [] draft.definitions
  unfold build at hbuild
  obtain ⟨⟨arena, defined⟩, hlower, hrest⟩ := exists_of_bind_eq_ok hbuild
  obtain ⟨rules, -, hrest⟩ := exists_of_bind_eq_ok hrest
  obtain ⟨root, -, hok⟩ := exists_of_bind_eq_ok hrest
  cases hok
  exact (hlowers.of_eq_ok hlower).2

theorem getLast?_bind_grammar?_push {includes : List Nat}
    (hincludes : ∀ inner ∈ includes, inner < lib.grammars.size) (later : Grammar) :
    includes.getLast?.bind (⟨lib.grammars.push later⟩ : Library).grammar? =
      includes.getLast?.bind lib.grammar? := by
  cases hlast : includes.getLast? with
  | none => rfl
  | some inner =>
      have hlt := hincludes inner (List.mem_of_getLast? hlast)
      rw [Option.bind_some, Option.bind_some, grammar?_push, if_neg (by omega)]

theorem draftRoot?_of_rootOf {outer : Library} {defined : List (String × Nat)} {root : RuleRef}
    (hnames : defined.map (·.1) = draft.definitions.map (·.1))
    (hroot : lib.rootOf draft defined = .ok root)
    (hlookup : ∀ name, outer.lookup lib.grammars.size name = lib.lookupDraft draft defined name)
    (hlast : draft.includes.getLast?.bind outer.grammar? =
      draft.includes.getLast?.bind lib.grammar?) :
    outer.draftRoot? lib.grammars.size draft = some root := by
  unfold rootOf at hroot
  unfold draftRoot?
  cases hnamed : draft.root with
  | some name =>
      rw [hnamed] at hroot
      simp only at hroot ⊢
      rw [hlookup]
      cases hfound : lib.lookupDraft draft defined name with
      | none => rw [hfound] at hroot; cases hroot
      | some found => rw [hfound] at hroot; rw [Except.ok.inj hroot]
  | none =>
      rw [hnamed] at hroot
      cases hdefinitions : draft.definitions with
      | cons definition rest =>
          rw [hdefinitions] at hnames
          cases defined with
          | nil => simp at hnames
          | cons entry entries =>
              obtain ⟨first, rule⟩ := entry
              obtain rfl : first = definition.1 := (List.cons.inj hnames).1
              simp only at hroot ⊢
              rw [hlookup, lookupDraft, List.lookup_cons_self, ← Except.ok.inj hroot]
      | nil =>
          rw [hdefinitions] at hnames
          rw [List.map_eq_nil_iff.1 hnames] at hroot
          simp only at hroot ⊢
          rw [hlast]
          cases hinner : draft.includes.getLast?.bind lib.grammar? with
          | none => simp [hinner] at hroot
          | some inner =>
              rw [hinner] at hroot
              rw [Option.map_some, Except.ok.inj hroot]

theorem realizes_push_size (hincludes : ∀ inner ∈ draft.includes, inner < lib.grammars.size)
    (hbuild : lib.build draft = .ok grammar) :
    (⟨lib.grammars.push grammar⟩ : Library).Realizes lib.grammars.size draft grammar := by
  obtain ⟨hdraft, -, hroot⟩ := build_references hbuild
  have hnames := ruleNames_build hbuild
  have hlookup (name : String) : (⟨lib.grammars.push grammar⟩ : Library).lookup lib.grammars.size
      name = lib.lookupDraft draft grammar.defined name :=
    lookup_push_size (hdraft ▸ hincludes) hdraft
  have hlast := getLast?_bind_grammar?_push hincludes grammar
  refine ⟨by rw [grammar?_push, if_pos rfl], hdraft, hnames, ?_⟩
  exact draftRoot?_of_rootOf hnames hroot hlookup hlast

theorem Realizes.push (h : lib.Realizes g draft grammar)
    (hlinked : lib.Linked) (later : Grammar) :
    (⟨lib.grammars.push later⟩ : Library).Realizes g draft grammar := by
  have hg : g < lib.grammars.size := (Array.getElem?_eq_some_iff.1 h.found).1
  have hincludes : ∀ inner ∈ draft.includes, inner < lib.grammars.size := by
    intro inner hinner
    rw [← h.includes] at hinner
    exact Nat.lt_trans (hlinked.includes g grammar h.found inner hinner) hg
  refine ⟨by rw [grammar?_push, if_neg (by omega), h.found], h.includes, h.names, ?_⟩
  rw [← h.root]
  unfold draftRoot?
  cases draft.root with
  | some name => exact lookup_push hg
  | none =>
      cases draft.definitions with
      | cons definition rest => exact lookup_push hg
      | nil => exact congrArg (Option.map _) (getLast?_bind_grammar?_push hincludes later)

theorem BuiltFrom.realizes (h : lib.BuiltFrom drafts) {g : Nat} {draft : Draft}
    (hdraft : drafts[g]? = some draft) : ∃ grammar, lib.Realizes g draft grammar := by
  induction h generalizing g draft with
  | empty => simp at hdraft
  | @add lib later drafts added hdrafts hincludes hadd ih =>
      obtain ⟨grammar, hbuild, rfl⟩ := exists_build_of_add hadd
      by_cases hlt : g < drafts.length
      · rw [List.getElem?_append_left hlt] at hdraft
        obtain ⟨old, hold⟩ := ih hdraft
        exact ⟨old, hold.push hdrafts.built.linked grammar⟩
      · have hlast : g = drafts.length := by
          have hbound := (List.getElem?_eq_some_iff.1 hdraft).1
          simp at hbound
          omega
        subst hlast
        rw [List.getElem?_concat_length] at hdraft
        cases hdraft
        rw [hdrafts.length]
        exact ⟨grammar, realizes_push_size hincludes hbuild⟩

/-! ## References -/

/-- The reference of a rule is carried out by a rule of that name: the way that is kept for it leads
there, and in every state performing the one is running the other. -/
structure CarriedOutBy (lib : Library) (r : RuleRef) (kind : Kind RuleRef) (name : String)
    (target : RuleRef) : Prop where
  own : lib.own? name target.grammar = some target
  way : (lib.bound? r.grammar kind).bind (lib.resolve? r.grammar) = some target
  run : ∀ s, lib.runBare r s = ((lib.run target s).1.map (.wrapped r), (lib.run target s).2)

theorem Built.ref (h : lib.Built) {rule : Rule RuleRef} (hrule : lib.rule? r = some rule)
    (hkind : rule.kind = .ref name target) :
    lib.lookup r.grammar name = some target ∧ lib.CarriedOutBy r rule.kind name target := by
  have hreferred : target ∈ rule.kind.referred := by rw [hkind]; rfl
  have hlookup := h.linked.references r rule hrule target hreferred
  rw [hkind] at hlookup
  refine ⟨hlookup, (own?_of_lookup hlookup).2, h.follow hrule hreferred, fun s => ?_⟩
  simp only [runBare, hrule, hkind]
  rfl

/-- A reference to the rule above: the first hit among the inclusions of the grammar of the rule, also
if the grammar defines the name itself. -/
theorem Built.inherited (h : lib.Built) {rule : Rule RuleRef} (hrule : lib.rule? r = some rule)
    (hkind : rule.kind = .inherited name target) :
    ∃ grammar, lib.grammar? r.grammar = some grammar ∧
      (grammar.includes.reverse.flatMap lib.searchOrder).findSome? (lib.own? name) = some target ∧
      lib.CarriedOutBy r rule.kind name target := by
  have hreferred : target ∈ rule.kind.referred := by rw [hkind]; rfl
  have hrefers := h.linked.references r rule hrule target hreferred
  rw [hkind] at hrefers
  obtain ⟨grammar, hgrammar, hlookup⟩ := Option.bind_eq_some_iff.1 hrefers
  obtain ⟨inner, -, hinner⟩ := List.exists_of_findSome?_eq_some hlookup
  rw [lookupIncluded_eq_findSome?] at hlookup
  refine ⟨grammar, hgrammar, hlookup, (own?_of_lookup hinner).2, h.follow hrule hreferred,
    fun s => ?_⟩
  simp only [runBare, hrule, hkind]
  rfl

/-! ## Asking other grammars -/

theorem Linked.lookup_eq_of_inclusion (h : lib.Linked) {front back : List Nat} {inner : Nat}
    (hg : lib.grammar? g = some grammar) (hincludes : grammar.includes = front ++ inner :: back)
    (hown : grammar.defined.lookup name = none) (hback : ∀ k ∈ back, lib.lookup k name = none)
    (hinner : lib.lookup inner name = some r) : lib.lookup g name = some r := by
  have hincluded : lib.lookup g name = lib.lookupIncluded grammar.includes name := by
    rw [lookup, hg]
    simp only [hown]
    apply findSome?_congr
    intro k hk
    exact if_pos (h.includes g grammar hg k (List.mem_reverse.1 hk))
  have hlater : back.reverse.findSome? (fun k => lib.lookup k name) = none := by
    rw [List.findSome?_eq_none_iff]
    intro k hk
    exact hback k (List.mem_reverse.1 hk)
  rw [hincluded, lookupIncluded, hincludes, List.reverse_append, List.reverse_cons,
    List.append_assoc, List.findSome?_append, hlater]
  simp [hinner]

theorem result_parseResult_eq (g k : Nat) (options : ParseOptions) (source : List Char)
    (place : Place) (outcome : Option Derivation) (cursor : Cursor) :
    (lib.parseResult g options source place outcome cursor).result =
      (lib.parseResult k options source place outcome cursor).result := by
  cases hcalls : cursor.calls.exceeded with
  | true => rw [parseResult_of_calls hcalls, parseResult_of_calls hcalls]
  | false =>
      cases hnesting : cursor.nesting.exceeded with
      | true =>
          rw [parseResult_of_nesting hcalls hnesting, parseResult_of_nesting hcalls hnesting]
      | false =>
          have hreached := Cursor.reachedLimit_eq_false_iff.2 ⟨hcalls, hnesting⟩
          rw [parseResult_of_unlimited hreached, parseResult_of_unlimited hreached]

theorem parse_eq_of_lookup_eq {k : Nat} (h : lib.lookup g name = lib.lookup k name) (text : String)
    (options : ParseOptions) :
    lib.parse g text { options with root := some name } =
      lib.parse k text { options with root := some name } := by
  let named : ParseOptions := { options with root := some name }
  have hroots : lib.parseRoot g named.root = lib.parseRoot k named.root := h
  show lib.parse g text named = lib.parse k text named
  cases hroot : lib.parseRoot k named.root with
  | none => simp only [parse, parseLogged, hroots, hroot]
  | some root =>
      cases hcursor : Cursor.at? text.toList named.startOffset with
      | none => simp only [parse, parseLogged, hroots, hroot, hcursor]
      | some cursor =>
          rw [parse_eq (hroots.trans hroot) hcursor, parse_eq hroot hcursor]
          exact result_parseResult_eq g k named text.toList cursor.place _ _

/-- The root of the grammar `g` is that of the grammar `k`: one after the other their drafts define
nothing and name no root, and the next one is the last inclusion. -/
inductive InheritsRoot (drafts : List Draft) : Nat → Nat → Prop
  | refl (g : Nat) : InheritsRoot drafts g g
  | last {g inner k : Nat} {draft : Draft} : drafts[g]? = some draft → draft.root = none →
      draft.definitions = [] → draft.includes.getLast? = some inner →
      InheritsRoot drafts inner k → InheritsRoot drafts g k

theorem BuiltFrom.root_eq (h : lib.BuiltFrom drafts) {g k : Nat} (hinherits : InheritsRoot drafts g k) :
    (lib.grammar? g).map (·.root) = (lib.grammar? k).map (·.root) := by
  induction hinherits with
  | refl g => rfl
  | @last g inner k draft hdraft hunnamed hundefined hlast _ ih =>
      obtain ⟨grammar, hrealizes⟩ := h.realizes hdraft
      have hroot := hrealizes.root
      rw [draftRoot?, hunnamed, hundefined] at hroot
      simp only [hlast, Option.bind_some] at hroot
      rw [← ih, hroot, hrealizes.found, Option.map_some]

/-- Names are looked up in the order of the search, and references stand for what was found then: an
alias for what its name stands for in its own grammar, a reference to the rule above for the first
hit among the inclusions of its own grammar, and they are carried out by just that rule. Every grammar
has the root that its draft asks for, and one that defines nothing has that of its last inclusion,
which may have it from its own. So it makes no difference for a parse whether a grammar is asked for a
name or the inclusion that the name comes from. -/
theorem names_static (hlib : lib.BuiltFrom drafts) :
    (∀ g name, lib.lookup g name = (lib.searchOrder g).findSome? (lib.own? name)) ∧
    (∀ g grammar, lib.grammar? g = some grammar →
      lib.searchOrder g = g :: grammar.includes.reverse.flatMap lib.searchOrder) ∧
    (∀ r rule name target, lib.rule? r = some rule →
      (rule.kind = .ref name target →
        lib.lookup r.grammar name = some target ∧ lib.CarriedOutBy r rule.kind name target) ∧
      (rule.kind = .inherited name target →
        ∃ grammar, lib.grammar? r.grammar = some grammar ∧
          (grammar.includes.reverse.flatMap lib.searchOrder).findSome? (lib.own? name) =
            some target ∧
          lib.CarriedOutBy r rule.kind name target)) ∧
    (∀ g draft, drafts[g]? = some draft → ∃ grammar, lib.Realizes g draft grammar) ∧
    (∀ g k, InheritsRoot drafts g k →
      (lib.grammar? g).map (·.root) = (lib.grammar? k).map (·.root)) ∧
    ∀ outer grammar front inner back name root, lib.grammar? outer = some grammar →
      grammar.includes = front ++ inner :: back → grammar.defined.lookup name = none →
      (∀ k ∈ back, lib.lookup k name = none) → lib.lookup inner name = some root →
      ∀ (text : String) (options : ParseOptions),
        lib.parse outer text { options with root := some name } =
          lib.parse inner text { options with root := some name } := by
  have hbuilt := hlib.built
  refine ⟨lib.lookup_eq_findSome?, fun g grammar => hbuilt.linked.searchOrder_eq, ?_,
    fun g draft => hlib.realizes, fun g k => hlib.root_eq, ?_⟩
  · intro r rule name target hrule
    exact ⟨hbuilt.ref hrule, hbuilt.inherited hrule⟩
  · intro outer grammar front inner back name root hg hincludes hown hback hinner text options
    have houter := hbuilt.linked.lookup_eq_of_inclusion hg hincludes hown hback hinner
    exact parse_eq_of_lookup_eq (houter.trans hinner.symm) text options

/-! ## Three grammars -/

theorem BuiltFrom.extend (h : lib.BuiltFrom drafts)
    (hincludes : ∀ inner ∈ draft.includes, inner < lib.grammars.size)
    (hadd : (lib.add draft).toOption.isSome = true) :
    (((lib.add draft).toOption).getD {}).BuiltFrom (drafts ++ [draft]) := by
  cases hlater : lib.add draft with
  | error e =>
      rw [hlater] at hadd
      cases hadd
  | ok later => exact .add h hincludes hlater

def both : Draft where
  name := "Both"
  includes := [0, 1]

def pairLibrary : Library := ((bracketLibrary.add pairs).toOption).getD {}

def bothLibrary : Library := ((pairLibrary.add both).toOption).getD {}

theorem bothLibrary_builtFrom : bothLibrary.BuiltFrom [brackets, pairs, both] := by
  have hbrackets : bracketLibrary.BuiltFrom [brackets] :=
    BuiltFrom.empty.extend (List.forall_mem_nil _) (by decide +kernel)
  have hpairs : pairLibrary.BuiltFrom [brackets, pairs] :=
    hbrackets.extend (by decide +kernel) (by decide +kernel)
  exact hpairs.extend (by decide +kernel) (by decide +kernel)

/-- The brackets of the third grammar are those that the second one defines, and the root is that of
the second one. -/
theorem names_static_both :
    bothLibrary.BuiltFrom [brackets, pairs, both] ∧
      InheritsRoot [brackets, pairs, both] 2 1 ∧
      (bothLibrary.grammar? 2).map (·.root) = (bothLibrary.grammar? 1).map (·.root) ∧
      ∀ (text : String) (options : ParseOptions),
        bothLibrary.parse 2 text { options with root := some "brackets" } =
          bothLibrary.parse 1 text { options with root := some "brackets" } := by
  obtain ⟨-, -, -, hrealizes, hroots, hparses⟩ := names_static bothLibrary_builtFrom
  have hinherits : InheritsRoot [brackets, pairs, both] 2 1 := .last rfl rfl rfl rfl (.refl 1)
  obtain ⟨grammar, hgrammar⟩ := hrealizes 2 both rfl
  have hincludes : grammar.includes = [0] ++ 1 :: [] := hgrammar.includes
  have hown : grammar.defined.lookup "brackets" = none := by
    rw [List.map_eq_nil_iff.1 hgrammar.names]
    rfl
  have hbrackets : (bothLibrary.lookup 1 "brackets").isSome = true := by decide +kernel
  obtain ⟨root, hroot⟩ := Option.isSome_iff_exists.1 hbrackets
  exact ⟨bothLibrary_builtFrom, hinherits, hroots 2 1 hinherits,
    hparses 2 grammar [0] 1 [] "brackets" root hgrammar.found hincludes hown
      (List.forall_mem_nil _) hroot⟩

end Library

end Peg
