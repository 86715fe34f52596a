import Peg.Proofs.Grammar.Written
import Peg.Proofs.Match.Members
import Peg.Proofs.Match.Walk

/-!
# Members of nodes

A node can be asked for the members of all rules on its chain. They are put together from the inside
out: the extensions around an expression are merged into one for its rule, those of the rules on a
chain into one for the node, and of the members of one name the outermost counts. Main statement:
`Library.members_compose`.
-/

namespace Peg

/-! ## Chains of rules and where they are written -/

namespace Library

variable {lib : Library} {drafts : List Draft} {w : Written} {path : List Written}

/-- Rules of which every wrapper leads on to the next one, up to one that is no wrapper. -/
inductive Path (lib : Library) (drafts : List Draft) : List Written → Prop
  | primary {w : Written} : lib.IsWritten drafts w → w.expr.isWrapper = false → Path lib drafts [w]
  | wrapper {w next : Written} {path : List Written} : lib.IsWritten drafts w → lib.LeadsOn drafts w next →
      Path lib drafts (next :: path) → Path lib drafts (w :: next :: path)

theorem Path.isWritten (h : lib.Path drafts path) : ∀ w ∈ path, lib.IsWritten drafts w := by
  induction h with
  | primary hw _ => exact List.forall_mem_singleton.2 hw
  | wrapper hw _ _ ih => exact List.forall_mem_cons.2 ⟨hw, ih⟩

theorem exists_path_of_next {next : Written} {inner : Derivation}
    (hw : lib.IsWritten drafts w) (hleads : lib.LeadsOn drafts w next)
    (h : ∃ path, lib.Path drafts (next :: path) ∧ (next :: path).map (·.rule) = inner.chain) :
    ∃ path, lib.Path drafts (w :: path) ∧
      (w :: path).map (·.rule) = (Derivation.wrapped w.rule inner).chain := by
  obtain ⟨path, hpath, hchain⟩ := h
  refine ⟨next :: path, .wrapper hw hleads hpath, ?_⟩
  rw [List.map_cons, hchain]
  rfl

theorem BuiltFrom.exists_path (hlib : lib.BuiltFrom drafts) {r : RuleRef} {p : Place}
    {d : Derivation} (h : lib.Derives r p d) :
    ∀ w, lib.IsWritten drafts w → w.rule = r →
      ∃ path, lib.Path drafts (w :: path) ∧ (w :: path).map (·.rule) = d.chain := by
  refine h.induct (motive := fun r _ d => ∀ w, lib.IsWritten drafts w → w.rule = r →
    ∃ path, lib.Path drafts (w :: path) ∧ (w :: path).map (·.rule) = d.chain) ?_
  rintro r rule p d hrule hformed w hw rfl
  have hbranch (hkind : rule.kind.isWrapper = false) : lib.Path drafts [w] := by
    obtain ⟨name, himplements⟩ := hw.implements
    obtain ⟨rule', hrule', -, hwrapper⟩ := himplements.exists_rule
    cases hrule.symm.trans hrule'
    exact .primary hw (hwrapper.trans hkind)
  generalize hkind : rule.kind = kind at hformed
  cases hformed with
  | terminal _ | text _ | sequence _ | rep _ _ _ | ahead | notAhead | upTo _ _ =>
      exact ⟨[], hbranch (by rw [hkind]; rfl), rfl⟩
  | choice hoption hinner =>
      obtain ⟨next, hnext, hwritten, hleads⟩ :=
        hw.exists_inside hrule (by rw [hkind]; rfl) (by rw [hkind]; exact hoption)
      exact exists_path_of_next hw hleads (hinner.2 next hwritten hnext)
  | label hinner =>
      obtain ⟨next, hnext, hwritten, hleads⟩ :=
        hw.exists_inside hrule (by rw [hkind]; rfl) (by rw [hkind]; exact List.mem_cons_self)
      exact exists_path_of_next hw hleads (hinner.2 next hwritten hnext)
  | ref hinner | inherited hinner =>
      obtain ⟨next, hnext, hwritten, hleads⟩ :=
        hlib.exists_referred hw hrule (by rw [hkind]; rfl) (by rw [hkind]; rfl)
      exact exists_path_of_next hw hleads (hinner.2 next hwritten hnext)

theorem chainExtension_eq (h : ∀ w ∈ path, lib.IsWritten drafts w) :
    lib.chainExtension (path.map (·.rule)) =
      Extension.mergeAll (path.reverse.map fun w => w.expr.attached.getD {}) := by
  induction path with
  | nil => rfl
  | cons w path ih =>
      obtain ⟨hw, hpath⟩ := List.forall_mem_cons.1 h
      rw [List.reverse_cons, List.map_append, List.map_singleton, Extension.mergeAll_concat,
        ← ih hpath]
      simp only [chainExtension, List.map_cons, List.filterMap_cons, hw.extension]
      cases w.expr.attached <;> rfl

end Library

/-! ## Nodes -/

namespace Match

/-- The members of a match are those of some extensions, given from the inside out. A member is asked
of the match without that member, the outermost of a name counts, and names come in the order of their
first appearance. A match without a `value` member has its text for a value. -/
structure Composes (m : Match) (xs : List Extension) : Prop where
  call : ∀ name, m.call name = ((Extension.mergeAll xs).get? name).map fun member =>
    member (withMembers m.node m.children ((Extension.mergeAll xs).erase name))
  outermost : ∀ name,
    (Extension.mergeAll xs).get? name = xs.reverse.findSome? fun x => x.get? name
  names : (Extension.mergeAll xs).names = (xs.flatMap Extension.names).eraseDups
  distinct : (Extension.mergeAll xs).names.Nodup
  missing : ∀ name, m.call name = none ↔ ∀ x ∈ xs, name ∉ x.names
  text : (∀ x ∈ xs, "value" ∉ x.names) → m.value = .string m.text

theorem composes_withMembers (node : Node) (children : List Match) (xs : List Extension) :
    (withMembers node children (Extension.mergeAll xs)).Composes xs := by
  have hmissing (name : String) :
      (withMembers node children (Extension.mergeAll xs)).call name = none ↔
        ∀ x ∈ xs, name ∉ x.names := by
    rw [withMembers_call, Option.map_eq_none_iff, Extension.get?_mergeAll_eq_none_iff]
  refine ⟨fun name => ?_, fun name => Extension.get?_mergeAll, Extension.names_mergeAll,
    (Extension.mergeAll xs).distinct, hmissing, fun hvalue => ?_⟩
  · rw [withMembers_node, withMembers_children, withMembers_call]
  · rw [value, (hmissing "value").2 hvalue, Option.getD_none]

variable {lib : Library} {source : List Char}

/-- The match of a derivation of some rule. -/
def IsDerived (lib : Library) (source : List Char) (m : Match) : Prop :=
  ∃ r p d, lib.Derives r p d ∧ m = ofDerivation lib source p d

theorem isDerived_row {rs : List RuleRef} {p : Place} {ds : List Derivation}
    (h : Derivability.Row (fun r p d => lib.Derives r p d ∧
      ∀ n ∈ nodesAll (ofDerivations lib source p d.parts), IsDerived lib source n) rs p ds) :
    ∀ n ∈ nodesAll (ofDerivations lib source p ds), IsDerived lib source n := by
  induction h with
  | nil =>
      intro n hn
      simp [ofDerivations, nodesAll] at hn
  | @cons r rs p d ds hd _ ih =>
      intro n hn
      rw [ofDerivations_cons, nodesAll, nodes_eq, ofDerivation_children] at hn
      rcases List.mem_append.1 hn with hn | hn
      · rcases List.mem_cons.1 hn with rfl | hn
        · exact ⟨r, p, d, hd.1, rfl⟩
        · exact hd.2 n hn
      · exact ih n hn

theorem isDerived_nodes {r : RuleRef} {p : Place} {d : Derivation} (h : lib.Derives r p d) :
    ∀ n ∈ (ofDerivation lib source p d).nodes, IsDerived lib source n := by
  have hparts : ∀ n ∈ nodesAll (ofDerivations lib source p d.parts), IsDerived lib source n := by
    refine h.induct (motive := fun _ p d =>
      ∀ n ∈ nodesAll (ofDerivations lib source p d.parts), IsDerived lib source n) ?_
    intro r rule p d _ hformed
    generalize rule.kind = kind at hformed
    cases hformed with
    | terminal _ | text _ | ahead | notAhead | upTo _ _ => exact isDerived_row .nil
    | sequence hrow | rep hrow _ _ => exact isDerived_row hrow
    | choice _ hinner | ref hinner | inherited hinner | label hinner => exact hinner.2
  intro n hn
  rw [nodes_eq, ofDerivation_children] at hn
  rcases List.mem_cons.1 hn with rfl | hn
  · exact ⟨r, p, d, h, rfl⟩
  · exact hparts n hn

end Match

namespace Library

variable {lib : Library} {drafts : List Draft}

/-- The rules on the chain of every node are written along a path of wrappers that lead on to each
other, in whatever definitions and grammars, and the members of the node are those of the extensions
of these rules, the outer ones merged into the inner ones. A rule has the extensions around its
expression, merged from the inside out, whether they were merged when they were attached or are merged
when the expression is lowered, at the top of it or anywhere inside. Merging keeps the names distinct,
each where it first appeared. -/
theorem members_compose (hlib : lib.BuiltFrom drafts) :
    (∀ (g : Nat) (text : String) (options : ParseOptions) (m : Match),
      lib.parse g text options = .ok m → ∀ n ∈ m.nodes,
        ∃ path, lib.Path drafts path ∧ path.map (·.rule) = n.node.derivation.chain ∧
          n.Composes (path.reverse.map fun w => w.expr.attached.getD {})) ∧
    (∀ w, lib.IsWritten drafts w →
      (lib.rule? w.rule).bind (·.extension) = w.expr.attached ∧
        w.expr.attached.getD {} = Extension.mergeAll w.expr.layers) ∧
    (∀ (e : Expr) (grammar rule : String) (arena : Arena),
      (∀ xs : List Extension,
        (xs.foldl Expr.extend e).lower grammar rule arena =
          (xs.foldl Expr.extended e).lower grammar rule arena) ∧
      (e.settled rule).lower grammar rule arena = e.lower grammar rule arena) ∧
    ∀ inner outer : Extension,
      (inner.merge outer).names = (inner.names ++ outer.names).eraseDups ∧
        (inner.merge outer).names.Nodup := by
  refine ⟨fun g text options m hm n hn => ?_, fun w hw => ?_,
    fun e grammar rule arena => ?_, fun inner outer => ?_⟩
  · obtain ⟨root, p, d, -, hderives, rfl, -⟩ := exists_derives_of_parse hlib.built.closed hm
    obtain ⟨r, p, d, hd, rfl⟩ := Match.isDerived_nodes hderives n hn
    obtain ⟨rule, hrule⟩ : ∃ rule, lib.rule? r = some rule := by
      cases hd with
      | intro hrule _ => exact ⟨_, hrule⟩
    obtain ⟨w, hw, hwritten⟩ := hlib.exists_written hrule
    obtain ⟨path, hpath, hchain⟩ := hlib.exists_path hd w hwritten hw
    refine ⟨_, hpath, ?_, ?_⟩
    · rw [hchain, Match.ofDerivation_node]
    · rw [Match.ofDerivation_eq, ← hchain, chainExtension_eq hpath.isWritten]
      exact Match.composes_withMembers _ _ _
  · exact ⟨hw.extension, w.expr.attached_getD⟩
  · exact ⟨fun xs => Expr.lower_foldl_extend xs (fun _ => rfl) arena, e.lower_settled arena⟩
  · exact ⟨Extension.names_merge, (inner.merge outer).distinct⟩

/-- A digit under a label, its values and a note. -/
def digits : Draft where
  name := "Digits"
  definitions :=
    [("item",
        .extended
          (.extended (.choice [.label (.ref "digit") "only"])
            (Extension.insert {} "value" Member.children))
          (Extension.insert {} "note" (Member.const .null))),
      ("digit", (Expr.range '0' '9').value (Member.const .null))]

/-- The item again, with a value of its own. -/
def items : Draft where
  name := "Items"
  definitions := [("item", (Expr.inherited none).value (Member.const .null))]
  includes := [0]

def itemLibrary : Library :=
  (((((Library.add {} digits).toOption).getD {}).add items).toOption).getD {}

theorem itemLibrary_builtFrom : itemLibrary.BuiltFrom [digits, items] := by
  have hdigits : (((Library.add {} digits).toOption).getD {}).BuiltFrom [digits] :=
    BuiltFrom.empty.extend (List.forall_mem_nil _) (by decide +kernel)
  exact hdigits.extend (by decide +kernel) (by decide +kernel)

/-- A digit is an item through five rules in two grammars. -/
theorem members_compose_items :
    itemLibrary.BuiltFrom [digits, items] ∧
      ∃ m path, itemLibrary.parse 1 "7" {} = .ok m ∧ itemLibrary.Path [digits, items] path ∧
        path.map (·.rule) = m.node.derivation.chain ∧ path.length = 5 ∧
        m.Composes (path.reverse.map fun w => w.expr.attached.getD {}) := by
  have hlength : (itemLibrary.parse 1 "7" {}).toOption.any
      (fun m => m.node.derivation.chain.length == 5) = true := by decide +kernel
  cases hparse : itemLibrary.parse 1 "7" {} with
  | error e =>
      rw [hparse] at hlength
      cases hlength
  | ok m =>
      rw [hparse] at hlength
      obtain ⟨path, hpath, hchain, hcomposes⟩ :=
        (members_compose itemLibrary_builtFrom).1 1 "7" {} m hparse m m.mem_nodes_self
      have hfive : path.length = 5 := by
        rw [← List.length_map (·.rule), hchain]
        exact beq_iff_eq.1 hlength
      exact ⟨itemLibrary_builtFrom, m, path, rfl, hpath, hchain, hfive, hcomposes⟩

end Library

end Peg
