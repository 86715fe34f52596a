import Peg.Proofs.Engine.Shift
import Peg.Proofs.Grammar.Address
import Peg.Proofs.Grammar.Readback

/-!
# Definitions in another order

When the definitions of a draft are put in another order, the rules of each definition move together
to the place that it has now. If the root is given by its name, either both drafts are accepted or
none is, and the grammar built from the second one has the rules of the first one under the numbers
that they moved to. Main statements: `Draft.WellFormed.reorder` and `Library.renumbers_reorder`.
-/

namespace Peg

section Moved

variable {definitions definitions' : List (String × Expr)}

/-- The number of a rule after its definition has moved. -/
def movedTo (definitions definitions' : List (String × Expr)) (i : Nat) : Nat :=
  match addressOf? definitions i with
  | some (name, k) => startOf definitions' name + k
  | none => i

theorem movedTo_startOf (hnames : (definitions.map (·.1)).Nodup) {name : String} {e : Expr}
    (hmem : (name, e) ∈ definitions) {k : Nat} (hk : k < e.ruleCount) :
    movedTo definitions definitions' (startOf definitions name + k) =
      startOf definitions' name + k := by
  have haddress : addressOf? definitions (startOf definitions name + k) = some (name, k) :=
    (addressOf?_eq_some_iff hnames).2 ⟨e, hmem, hk, rfl⟩
  simp only [movedTo, haddress]

theorem Expr.ruleCounts_perm {es es' : List Expr} (h : es'.Perm es) :
    Expr.ruleCounts es' = Expr.ruleCounts es := by
  induction h with
  | nil => rfl
  | cons e _ ih => simp only [Expr.ruleCounts, ih]
  | swap e e' es =>
      simp only [Expr.ruleCounts]
      omega
  | trans _ _ ih ih' => rw [ih, ih']

theorem movedTo_movedTo (h : definitions'.Perm definitions) (hnames : (definitions.map (·.1)).Nodup)
    (i : Nat) : movedTo definitions' definitions (movedTo definitions definitions' i) = i := by
  cases haddress : addressOf? definitions i with
  | none =>
      have haddress' : addressOf? definitions' i = none := by
        rw [addressOf?_eq_none_iff, Expr.ruleCounts_perm (h.map _)]
        exact addressOf?_eq_none_iff.1 haddress
      simp only [movedTo, haddress, haddress']
  | some address =>
      obtain ⟨name, k⟩ := address
      obtain ⟨e, hmem, hk, rfl⟩ := (addressOf?_eq_some_iff hnames).1 haddress
      rw [movedTo_startOf hnames hmem hk]
      exact movedTo_startOf ((h.map _).nodup_iff.2 hnames) (h.mem_iff.2 hmem) hk

/-- The numbers that rules get when definitions of different names are put in another order. -/
def reordering (h : definitions'.Perm definitions) (hnames : (definitions.map (·.1)).Nodup) :
    Equiv.Perm Nat where
  toFun := movedTo definitions definitions'
  invFun := movedTo definitions' definitions
  left_inv := movedTo_movedTo h hnames
  right_inv := movedTo_movedTo h.symm ((h.map _).nodup_iff.2 hnames)

theorem lowerDefinitions_reorder {grammar : String} {arena arena' : Arena}
    {defined defined' : List (String × Nat)} (h : definitions'.Perm definitions)
    (hnames : (definitions.map (·.1)).Nodup)
    (hlower : lowerDefinitions grammar #[] [] definitions = .ok (arena, defined))
    (hlower' : lowerDefinitions grammar #[] [] definitions' = .ok (arena', defined')) (i : Nat) :
    arena'[movedTo definitions definitions' i]? =
      arena[i]?.map (Rule.renumber (movedTo definitions definitions') id) := by
  have hsize := (lowerDefinitions_kept hlower).1
  have hsize' := (lowerDefinitions_kept hlower').1
  rw [Expr.ruleCounts_perm (h.map _), ← hsize] at hsize'
  rw [Array.size_empty, Nat.zero_add] at hsize
  cases haddress : addressOf? definitions i with
  | none =>
      have hi : arena.size ≤ i := by
        rw [hsize]
        exact addressOf?_eq_none_iff.1 haddress
      have hmoved : movedTo definitions definitions' i = i := by simp only [movedTo, haddress]
      rw [hmoved, Array.getElem?_eq_none hi, Array.getElem?_eq_none (by omega)]
      rfl
  | some address =>
      obtain ⟨name, k⟩ := address
      obtain ⟨e, hmem, hk, rfl⟩ := (addressOf?_eq_some_iff hnames).1 haddress
      have hstands := lowerDefinitions_standing hlower hnames hmem hk
      have hstands' := lowerDefinitions_standing hlower' ((h.map _).nodup_iff.2 hnames)
        (h.mem_iff.2 hmem) hk
      simp only [Array.size_empty, Nat.zero_add] at hstands hstands'
      rw [movedTo_startOf hnames hmem hk, hstands, hstands', Option.map_map]
      cases hrule : (alone grammar (name, e))[k]? with
      | none => rfl
      | some rule =>
          simp only [Option.map_some, Function.comp_apply, Rule.renumber_renumber]
          congr 1
          apply Rule.renumber_congr
          intro j hj
          have hlt := (laidOut_alone grammar (name, e)).lt hrule hj
          exact (movedTo_startOf hnames hmem (by omega)).symm

section Defined

variable {grammar : String} {arena arena' : Arena} {defined defined' : List (String × Nat)}

theorem mem_defined_iff (h : arena.Holds defined) {name : String} {i : Nat} :
    (name, i) ∈ defined ↔ arena[i]?.bind (·.name) = some name := by
  cases hrule : arena[i]? with
  | some rule => exact (h.named i rule hrule name).symm
  | none =>
      simp only [Option.bind_none, reduceCtorEq, iff_false]
      intro hmem
      have hlt : i < arena.size := h.row.lt_last (List.mem_map_of_mem hmem)
      rw [Array.getElem?_eq_none_iff] at hrule
      omega

theorem lookup_eq_some_iff_mem (hnames : (defined.map (·.1)).Nodup) {name : String} {i : Nat} :
    defined.lookup name = some i ↔ (name, i) ∈ defined := by
  constructor
  · exact Library.mem_of_lookup_eq_some
  · intro hmem
    obtain ⟨j, hj⟩ := Option.isSome_iff_exists.1
      (isSome_lookup_iff_mem.2 (List.mem_map_of_mem (f := (·.1)) hmem))
    have hsame := (List.inj_on_of_nodup_map hnames) (Library.mem_of_lookup_eq_some hj) hmem rfl
    rw [hj, (Prod.mk.inj hsame).2]

theorem nodup_defined (hnames : (definitions.map (·.1)).Nodup)
    (hlower : lowerDefinitions grammar #[] [] definitions = .ok (arena, defined)) :
    (defined.map (·.1)).Nodup := by
  have hreports := lowerDefinitions_reports { name := grammar } {} grammar #[] [] definitions
  rw [(hreports.of_eq_ok hlower).2]
  exact hnames

theorem lookup_reorder (h : definitions'.Perm definitions) (hnames : (definitions.map (·.1)).Nodup)
    (hlower : lowerDefinitions grammar #[] [] definitions = .ok (arena, defined))
    (hlower' : lowerDefinitions grammar #[] [] definitions' = .ok (arena', defined'))
    (name : String) :
    defined'.lookup name = (defined.lookup name).map (movedTo definitions definitions') := by
  have hnames' : (definitions'.map (·.1)).Nodup := (h.map _).nodup_iff.2 hnames
  have hholds := lowerDefinitions_holds Arena.holds_empty hlower
  have hholds' := lowerDefinitions_holds Arena.holds_empty hlower'
  have hmoved (i : Nat) : defined'.lookup name = some (movedTo definitions definitions' i) ↔
      defined.lookup name = some i := by
    rw [lookup_eq_some_iff_mem (nodup_defined hnames hlower),
      lookup_eq_some_iff_mem (nodup_defined hnames' hlower'), mem_defined_iff hholds,
      mem_defined_iff hholds', lowerDefinitions_reorder h hnames hlower hlower', Option.bind_map]
    rfl
  cases hlookup : defined.lookup name with
  | some i => exact (hmoved i).2 hlookup
  | none =>
      cases hlookup' : defined'.lookup name with
      | none => rfl
      | some j =>
          have hback := movedTo_movedTo h.symm hnames' j
          rw [← hback] at hlookup'
          rw [(hmoved _).1 hlookup'] at hlookup
          cases hlookup

end Defined

end Moved

/-! ## Grammars -/

namespace Draft

def withDefinitions (draft : Draft) (definitions : List (String × Expr)) : Draft :=
  { draft with definitions }

variable {draft : Draft} {definitions : List (String × Expr)} {lib : Library}

theorem resolves_reorder (h : definitions.Perm draft.definitions) {name : String} :
    (draft.withDefinitions definitions).Resolves lib name ↔ draft.Resolves lib name :=
  or_congr_left (h.map _).mem_iff

theorem resolved_reorder (h : definitions.Perm draft.definitions) {rule : String} {e : Expr} :
    e.Resolved (draft.withDefinitions definitions) lib rule ↔ e.Resolved draft lib rule := by
  cases e with
  | ref name => exact resolves_reorder h
  | _ => exact Iff.rfl

theorem wellFormed_reorder (h : definitions.Perm draft.definitions) {root : String}
    (hroot : draft.root = some root) :
    (draft.withDefinitions definitions).WellFormed lib ↔ draft.WellFormed lib := by
  have hroot' : (draft.withDefinitions definitions).root = some root := hroot
  constructor
  · intro hdraft
    constructor
    · exact (h.map _).nodup_iff.1 hdraft.distinct
    · intro definition hmem
      exact hdraft.sound definition (h.mem_iff.2 hmem)
    · intro definition hmem e he
      exact (resolved_reorder h).1 (hdraft.resolved definition (h.mem_iff.2 hmem) e he)
    · have hname := hdraft.root
      rw [hroot'] at hname
      rw [hroot]
      exact (resolves_reorder h).1 hname
  · intro hdraft
    constructor
    · exact (h.map _).nodup_iff.2 hdraft.distinct
    · intro definition hmem
      exact hdraft.sound definition (h.mem_iff.1 hmem)
    · intro definition hmem e he
      exact (resolved_reorder h).2 (hdraft.resolved definition (h.mem_iff.1 hmem) e he)
    · have hname := hdraft.root
      rw [hroot] at hname
      rw [hroot']
      exact (resolves_reorder h).2 hname

end Draft

def Translation.within (g : Nat) (numbers : Equiv.Perm Nat) : Translation :=
  ⟨fun g' => if g' = g then numbers else Equiv.refl Nat, 0⟩

namespace Translation

variable {g : Nat} {numbers : Equiv.Perm Nat} {r : RuleRef}

theorem rule_within (i : Nat) : (within g numbers).rule ⟨g, i⟩ = ⟨g, numbers i⟩ := by
  simp [rule, within]

theorem rule_within_of_ne (h : r.grammar ≠ g) : (within g numbers).rule r = r := by
  simp [rule, within, h]

theorem renumber_within {rule : Rule RuleRef} (h : ∀ t ∈ rule.kind.referred, t.grammar ≠ g) :
    rule.renumber id (within g numbers).rule = rule := by
  obtain ⟨kind, name, label, extension⟩ := rule
  simp only [Rule.renumber, Rule.mk.injEq, and_self, and_true]
  cases kind with
  | ref name t | inherited name t => simp [Kind.renumber, rule_within_of_ne (h t rfl)]
  | _ => simp [Kind.renumber]

end Translation

/-! ### References -/

section Resolve

variable {ref inherited ref' inherited' : String → String → Except GrammarError RuleRef}

theorem Rule.exists_target_of_resolve {source : Rule String} {rule : Rule RuleRef}
    (h : source.resolve ref inherited = .ok rule) :
    ∃ t : RuleRef, rule = source.renumber id fun _ => t := by
  obtain ⟨kind, name, label, extension⟩ := source
  unfold Rule.resolve at h
  cases kind with
  | ref other owner =>
      cases hfound : ref other owner with
      | error e => simp [Kind.resolve, hfound, Except.map] at h
      | ok t =>
          simp only [Kind.resolve, hfound, Except.map, Except.ok.injEq] at h
          exact ⟨t, h.symm⟩
  | inherited other owner =>
      cases hfound : inherited other owner with
      | error e => simp [Kind.resolve, hfound, Except.map] at h
      | ok t =>
          simp only [Kind.resolve, hfound, Except.map, Except.ok.injEq] at h
          exact ⟨t, h.symm⟩
  | _ =>
      cases h
      exact ⟨⟨0, 0⟩, by simp [Rule.renumber, Kind.renumber]⟩

theorem Rule.resolve_renumber {source : Rule String} {rule rule' : Rule RuleRef}
    {number : Nat → Nat} {target : RuleRef → RuleRef} {finds finds' : Kind RuleRef → Option RuleRef}
    (h : source.resolve ref inherited = .ok rule)
    (h' : (source.renumber number id).resolve ref' inherited' = .ok rule')
    (hfound : ∀ t ∈ rule.kind.referred, finds rule.kind = some t)
    (hfound' : ∀ t ∈ rule'.kind.referred, finds' rule'.kind = some t)
    (hfinds : ∀ (kind : Kind RuleRef) (t : RuleRef),
      finds' (kind.renumber number fun _ => t) = (finds kind).map target) :
    rule' = rule.renumber number target := by
  obtain ⟨t, rfl⟩ := exists_target_of_resolve h
  obtain ⟨t', rfl⟩ := exists_target_of_resolve h'
  rw [renumber_renumber, renumber_renumber]
  have hboth := hfinds (source.kind.renumber id fun _ => t) t'
  obtain ⟨kind, name, label, extension⟩ := source
  cases kind with
  | ref other owner | inherited other owner =>
      have hsame : some t' = (some t).map target :=
        (hfound' t' rfl).symm.trans (hboth.trans (congrArg (Option.map target) (hfound t rfl)))
      cases hsame
      rfl
  | _ => rfl

end Resolve

namespace Library

variable {lib : Library} {draft : Draft} {definitions : List (String × Expr)}
  {grammar grammar' : Grammar}

theorem rule_within_of_knows {numbers : Equiv.Perm Nat} {r : RuleRef} (hr : lib.Knows r) :
    (Translation.within lib.grammars.size numbers).rule r = r := by
  apply Translation.rule_within_of_ne
  obtain ⟨rule, hrule⟩ := Option.isSome_iff_exists.1 hr
  obtain ⟨g, hg, -⟩ := Option.bind_eq_some_iff.1 hrule
  have hlt := (Array.getElem?_eq_some_iff.1 hg).1
  omega

section Reorder

variable (hlib : lib.Closed) (h : definitions.Perm draft.definitions)
  (hnames : (draft.definitions.map (·.1)).Nodup)

/-- The rules of the grammar to be added, moved with their definitions. -/
def reordered (lib : Library) (h : definitions.Perm draft.definitions)
    (hnames : (draft.definitions.map (·.1)).Nodup) : Translation :=
  .within lib.grammars.size (reordering h hnames)

include hlib in
theorem lookupIncluded_reorder (includes : List Nat) (name : String) :
    (lib.lookupIncluded includes name).map (lib.reordered h hnames).rule =
      lib.lookupIncluded includes name := by
  cases hfound : lib.lookupIncluded includes name with
  | none => rfl
  | some r => rw [Option.map_some, reordered, rule_within_of_knows (hlib.lookupIncluded hfound)]

variable (hbuild : lib.build draft = .ok grammar)
  (hbuild' : lib.build (draft.withDefinitions definitions) = .ok grammar')

include hlib hbuild hbuild'

theorem lookupDraft_reorder (name : String) :
    lib.lookupDraft (draft.withDefinitions definitions) grammar'.defined name =
      (lib.lookupDraft draft grammar.defined name).map (lib.reordered h hnames).rule := by
  obtain ⟨arena, ref, inherited, hlower, -⟩ := exists_lowering_of_build hbuild
  obtain ⟨arena', ref', inherited', hlower', -⟩ := exists_lowering_of_build hbuild'
  simp only [lookupDraft, lookup_reorder h hnames hlower hlower' name]
  cases grammar.defined.lookup name with
  | some i =>
      show some _ = some ((lib.reordered h hnames).rule ⟨lib.grammars.size, i⟩)
      rw [reordered, Translation.rule_within]
      rfl
  | none => exact (lookupIncluded_reorder hlib h hnames draft.includes name).symm

theorem draftRefers?_reorder (kind : Kind RuleRef) (number : Nat → Nat) (t : RuleRef) :
    lib.draftRefers? (draft.withDefinitions definitions) grammar'.defined
        (kind.renumber number fun _ => t) =
      (lib.draftRefers? draft grammar.defined kind).map (lib.reordered h hnames).rule := by
  cases kind with
  | ref name _ => exact lookupDraft_reorder hlib h hnames hbuild hbuild' name
  | inherited name _ => exact (lookupIncluded_reorder hlib h hnames draft.includes name).symm
  | _ => rfl

theorem rules_reorder (i : Nat) :
    grammar'.rules[reordering h hnames i]? =
      grammar.rules[i]?.map
        (Rule.renumber (reordering h hnames) (lib.reordered h hnames).rule) := by
  obtain ⟨arena, ref, inherited, hlower, hsize, hget⟩ := exists_lowering_of_build hbuild
  obtain ⟨arena', ref', inherited', hlower', hsize', hget'⟩ := exists_lowering_of_build hbuild'
  have hmoved : arena'[reordering h hnames i]? =
      arena[i]?.map (Rule.renumber (reordering h hnames) id) :=
    lowerDefinitions_reorder h hnames hlower hlower' i
  cases hrule : grammar.rules[i]? with
  | none =>
      rw [Array.getElem?_eq_none_iff] at hrule
      have hnone : arena[i]? = none := Array.getElem?_eq_none (by omega)
      rw [hnone, Option.map_none, Array.getElem?_eq_none_iff] at hmoved
      rw [Array.getElem?_eq_none (by omega)]
      rfl
  | some rule =>
      obtain ⟨source, hsource, hresolve⟩ := hget i rule hrule
      rw [hsource, Option.map_some] at hmoved
      have hlt : reordering h hnames i < grammar'.rules.size := by
        rw [hsize']
        exact (Array.getElem?_eq_some_iff.1 hmoved).1
      have hrule' := Array.getElem?_eq_getElem hlt
      obtain ⟨source', hsource', hresolve'⟩ := hget' _ _ hrule'
      rw [hmoved] at hsource'
      cases hsource'
      rw [hrule', Option.map_some]
      congr 1
      exact Rule.resolve_renumber hresolve hresolve'
        ((build_references hbuild).2.1 i rule hrule)
        ((build_references hbuild').2.1 _ _ hrule')
        fun kind t => draftRefers?_reorder hlib h hnames hbuild hbuild' kind _ t

/-- The library with the second grammar has the rules of the library with the first one, moved. -/
theorem renumbers_reorder :
    Renumbers (lib.reordered h hnames) ⟨lib.grammars.push grammar⟩ ⟨lib.grammars.push grammar'⟩ := by
  intro r
  by_cases hr : r.grammar = lib.grammars.size
  · obtain ⟨g, i⟩ := r
    obtain rfl : g = lib.grammars.size := hr
    rw [reordered, Translation.rule_within]
    simp only [rule?, grammar?_push, if_pos, Option.bind_some, Translation.within]
    exact rules_reorder hlib h hnames hbuild hbuild' i
  -- rules of the grammars before are not moved, and refer to none that are
  · have hold (added : Grammar) : (⟨lib.grammars.push added⟩ : Library).rule? r = lib.rule? r := by
      simp only [rule?, grammar?_push, if_neg hr]
    rw [reordered, Translation.rule_within_of_ne hr, hold, hold]
    have hnumbers : (Translation.within lib.grammars.size (reordering h hnames)).numbers r.grammar =
        Equiv.refl Nat := if_neg hr
    rw [hnumbers]
    cases hrule : lib.rule? r with
    | none => rfl
    | some rule =>
        congr 1
        symm
        apply Translation.renumber_within
        intro t ht
        have hknows := hlib.targets r rule hrule t (List.mem_append_right _ (Option.mem_toList.2 ht))
        obtain ⟨target, htarget⟩ := Option.isSome_iff_exists.1 hknows
        obtain ⟨g, hg, -⟩ := Option.bind_eq_some_iff.1 htarget
        have hlt := (Array.getElem?_eq_some_iff.1 hg).1
        omega

theorem lookup_push_reorder (hincludes : ∀ inner ∈ draft.includes, inner < lib.grammars.size)
    (name : String) :
    (⟨lib.grammars.push grammar'⟩ : Library).lookup lib.grammars.size name =
      ((⟨lib.grammars.push grammar⟩ : Library).lookup lib.grammars.size name).map
        (lib.reordered h hnames).rule := by
  have hdraft := (build_references hbuild).1
  have hdraft' := (build_references hbuild').1
  rw [lookup_push_size (hdraft ▸ hincludes) hdraft, lookup_push_size (hdraft' ▸ hincludes) hdraft']
  exact lookupDraft_reorder hlib h hnames hbuild hbuild' name

theorem parseRoot_reorder (hincludes : ∀ inner ∈ draft.includes, inner < lib.grammars.size)
    {root : String} (hroot : draft.root = some root) (other : Option String) :
    (⟨lib.grammars.push grammar'⟩ : Library).parseRoot lib.grammars.size other =
      ((⟨lib.grammars.push grammar⟩ : Library).parseRoot lib.grammars.size other).map
        (lib.reordered h hnames).rule := by
  have hlookup := lookup_push_reorder hlib h hnames hbuild hbuild' hincludes
  cases other with
  | some name => exact hlookup name
  | none =>
      have hrealizes := realizes_push_size hincludes hbuild
      have hincludes' : ∀ inner ∈ (draft.withDefinitions definitions).includes,
          inner < lib.grammars.size := hincludes
      have hrealizes' := realizes_push_size hincludes' hbuild'
      have hfirst := hrealizes.root
      have hsecond := hrealizes'.root
      have hroot' : (draft.withDefinitions definitions).root = some root := hroot
      simp only [draftRoot?, hroot] at hfirst
      simp only [draftRoot?, hroot'] at hsecond
      simp only [parseRoot, hrealizes.found, hrealizes'.found, Option.map_some]
      rw [← hsecond, hlookup, hfirst]
      rfl

end Reorder

end Library

end Peg
