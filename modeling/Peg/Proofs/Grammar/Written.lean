import Peg.Proofs.Grammar.Attached

/-!
# Rules and where they are written

Every rule of a library comes from an expression in one of the definitions of the drafts that the
library was built from, and has the extensions around that expression. What a wrapper leads to is
written inside of it or as the definition that its name stands for. Main statements:
`Library.BuiltFrom.exists_written`,
`Library.IsWritten.exists_inside` and `Library.BuiltFrom.exists_referred`.
-/

namespace Peg

/-- A label, an alternative or a reference, whatever its extensions are. -/
def Expr.isWrapper (e : Expr) : Bool :=
  match e.bare with
  | .choice _ | .ref _ | .inherited _ | .label _ _ => true
  | _ => false

theorem Expr.mem_subexpressions_trans {e part sub : Expr} (hpart : part ∈ e.subexpressions)
    (hsub : sub ∈ part.subexpressions) : sub ∈ e.subexpressions := by
  obtain ⟨C, rfl⟩ := mem_subexpressions_iff.1 hpart
  exact mem_subexpressions_fill hsub C

theorem Expr.mem_subexpressions_of_part {e part : Expr} (h : part ∈ e.bare.parts) :
    part ∈ e.subexpressions := by
  refine mem_subexpressions_trans e.bare_mem_subexpressions ?_
  rw [subexpressions_node e.isNode_bare]
  exact List.mem_cons_of_mem _ (mem_subexpressionsAll_iff.2 ⟨part, h, part.self_mem_subexpressions⟩)

namespace Library

variable {lib : Library}

/-! ## The rule of an expression -/

section Implements

variable {g i : Nat} {owner : String} {e : Expr} {name : Option String} {x : Option Extension}
  {rule : Rule RuleRef}

theorem ImplementsAll.exists_of_mem {ids : List Nat} {es : List Expr}
    (h : lib.ImplementsAll g owner ids es) (hi : i ∈ ids) :
    ∃ e ∈ es, lib.Implements g owner i e none e.attached := by
  induction es generalizing ids with
  | nil =>
      cases h
      cases hi
  | cons e es ih =>
      cases h with
      | cons he hes =>
          rcases List.mem_cons.1 hi with rfl | hi
          · exact ⟨e, List.mem_cons_self, he⟩
          · obtain ⟨part, hpart, himplements⟩ := ih hes hi
            exact ⟨part, List.mem_cons_of_mem _ hpart, himplements⟩

theorem Implements.bare (h : lib.Implements g owner i e name x) :
    lib.Implements g owner i e.bare name x := by
  induction e using Expr.induct with
  | node e he _ => rwa [Expr.bare_of_isNode he]
  | extended body extension ih =>
      cases h with
      | extended hbody => exact ih hbody

theorem Implements.exists_rule (h : lib.Implements g owner i e name x) :
    ∃ rule, lib.rule? ⟨g, i⟩ = some rule ∧ rule.extension = x ∧
      e.isWrapper = rule.kind.isWrapper := by
  have hbare := h.bare
  have hnode := e.isNode_bare
  unfold Expr.isWrapper
  generalize e.bare = node at hbare hnode ⊢
  cases hbare with
  | text hrule | pattern _ hrule | range hrule | any hrule | endOfInput hrule | seq hrule _
    | choice hrule _ | rep hrule _ | ahead hrule _ | notAhead hrule _ | upTo hrule _ | ref _ hrule
    | inherited _ hrule | label hrule _ => exact ⟨_, hrule, rfl, rfl⟩
  | extended _ => exact absurd rfl (hnode _ _)

theorem Implements.exists_part (h : lib.Implements g owner i e name x)
    (hrule : lib.rule? ⟨g, i⟩ = some rule) {j : Nat} (hj : j ∈ rule.kind.children) :
    ∃ part ∈ e.bare.parts, lib.Implements g owner j part none part.attached := by
  have hbare := h.bare
  have hnode := e.isNode_bare
  generalize e.bare = node at hbare hnode ⊢
  cases hbare with
  | text hrule' | pattern _ hrule' | range hrule' | any hrule' | endOfInput hrule' | ref _ hrule'
    | inherited _ hrule' =>
      cases hrule.symm.trans hrule'
      cases hj
  | seq hrule' hparts | choice hrule' hparts =>
      cases hrule.symm.trans hrule'
      exact hparts.exists_of_mem hj
  | rep hrule' hbody | ahead hrule' hbody | notAhead hrule' hbody | upTo hrule' hbody
    | label hrule' hbody =>
      cases hrule.symm.trans hrule'
      exact ⟨_, List.mem_cons_self, List.mem_singleton.1 hj ▸ hbody⟩
  | extended _ => exact absurd rfl (hnode _ _)

/-- A rule that wraps another one, and the expression of such a rule. -/
inductive WrapsAs (lib : Library) (g : Nat) (owner : String) : Kind RuleRef → Expr → Prop
  | choice {ids options} : WrapsAs lib g owner (.choice ids) (.choice options)
  | ref {name target} : lib.lookup g name = some target →
      WrapsAs lib g owner (.ref name target) (.ref name)
  | inherited {other target} :
      lib.refers? g (.inherited (other.getD owner) target) = some target →
      WrapsAs lib g owner (.inherited (other.getD owner) target) (.inherited other)
  | label {id body name} : WrapsAs lib g owner (.label id) (.label body name)

theorem Implements.wrapsAs (h : lib.Implements g owner i e name x)
    (hrule : lib.rule? ⟨g, i⟩ = some rule) (hwrapper : rule.kind.isWrapper = true) :
    lib.WrapsAs g owner rule.kind e.bare := by
  have hbare := h.bare
  have hnode := e.isNode_bare
  generalize e.bare = node at hbare hnode ⊢
  cases hbare with
  | text hrule' | pattern _ hrule' | range hrule' | any hrule' | endOfInput hrule' | seq hrule' _
    | rep hrule' _ | ahead hrule' _ | notAhead hrule' _ | upTo hrule' _ =>
      cases hrule.symm.trans hrule'
      cases hwrapper
  | choice hrule' _ =>
      cases hrule.symm.trans hrule'
      exact .choice
  | ref htarget hrule' =>
      cases hrule.symm.trans hrule'
      exact .ref htarget
  | inherited htarget hrule' =>
      cases hrule.symm.trans hrule'
      exact .inherited htarget
  | label hrule' _ =>
      cases hrule.symm.trans hrule'
      exact .label
  | extended _ => exact absurd rfl (hnode _ _)

end Implements

end Library

/-! ## Where rules are written -/

/-- A rule with an expression in a definition. -/
structure Written where
  rule : RuleRef
  /-- The name of the definition. -/
  owner : String
  expr : Expr

namespace Library

variable {lib : Library} {drafts : List Draft}

/-- The expression is a definition of the name in the draft of a grammar. -/
def IsDefinition (drafts : List Draft) (g : Nat) (name : String) (e : Expr) : Prop :=
  ∃ draft, drafts[g]? = some draft ∧ (name, e) ∈ draft.definitions

/-- The rule comes from the expression, which is part of a definition of the draft of its grammar, and
has the extensions around the expression. -/
structure IsWritten (lib : Library) (drafts : List Draft) (w : Written) : Prop where
  part : ∃ body, IsDefinition drafts w.rule.grammar w.owner body ∧ w.expr ∈ body.subexpressions
  implements : ∃ name,
    lib.Implements w.rule.grammar w.owner w.rule.rule w.expr name w.expr.attached

/-- What a wrapper leads to: the body of a label, an option of a choice, or the definition that the
name of a reference stands for. -/
inductive LeadsOn (lib : Library) (drafts : List Draft) : Written → Written → Prop
  | choice {r owner e options option id} : e.bare = .choice options → option ∈ options →
      LeadsOn lib drafts ⟨r, owner, e⟩ ⟨r.sibling id, owner, option⟩
  | label {r owner e body name id} : e.bare = .label body name →
      LeadsOn lib drafts ⟨r, owner, e⟩ ⟨r.sibling id, owner, body⟩
  | ref {r owner e name target body} : e.bare = .ref name →
      lib.lookup r.grammar name = some target → IsDefinition drafts target.grammar name body →
      LeadsOn lib drafts ⟨r, owner, e⟩ ⟨target, name, body⟩
  | inherited {r owner e other target body} : e.bare = .inherited other →
      lib.refers? r.grammar (.inherited (other.getD owner) target) = some target →
      IsDefinition drafts target.grammar (other.getD owner) body →
      LeadsOn lib drafts ⟨r, owner, e⟩ ⟨target, other.getD owner, body⟩

variable {w : Written} {rule : Rule RuleRef}

theorem IsWritten.extension (h : lib.IsWritten drafts w) :
    (lib.rule? w.rule).bind (·.extension) = w.expr.attached := by
  obtain ⟨-, name, himplements⟩ := h
  obtain ⟨rule, hrule, hextension, -⟩ := himplements.exists_rule
  rw [hrule, Option.bind_some, hextension]

theorem IsWritten.exists_part (h : lib.IsWritten drafts w) (hrule : lib.rule? w.rule = some rule)
    {j : Nat} (hj : j ∈ rule.kind.children) :
    ∃ part ∈ w.expr.bare.parts, lib.IsWritten drafts ⟨w.rule.sibling j, w.owner, part⟩ := by
  obtain ⟨⟨body, hbody, hmem⟩, name, himplements⟩ := h
  obtain ⟨part, hpart, hmade⟩ := himplements.exists_part hrule hj
  exact ⟨part, hpart, ⟨body, hbody,
    Expr.mem_subexpressions_trans hmem (Expr.mem_subexpressions_of_part hpart)⟩, none, hmade⟩

/-- A wrapper leads on to the rules that it is made of. -/
theorem IsWritten.exists_inside (h : lib.IsWritten drafts w) (hrule : lib.rule? w.rule = some rule)
    (hwrapper : rule.kind.isWrapper = true) {j : Nat} (hj : j ∈ rule.kind.children) :
    ∃ next, next.rule = w.rule.sibling j ∧ lib.IsWritten drafts next ∧
      lib.LeadsOn drafts w next := by
  obtain ⟨part, hpart, hwritten⟩ := h.exists_part hrule hj
  obtain ⟨name, himplements⟩ := h.implements
  obtain ⟨r, owner, e⟩ := w
  refine ⟨_, rfl, hwritten, ?_⟩
  have hwraps := himplements.wrapsAs hrule hwrapper
  generalize rule.kind = kind at hwraps hj
  generalize hbare : e.bare = node at hwraps hpart
  cases hwraps with
  | choice => exact .choice hbare hpart
  | label =>
      cases List.mem_singleton.1 hpart
      exact .label hbare
  | ref | inherited => cases hj

namespace BuiltFrom

theorem exists_draft (h : lib.BuiltFrom drafts) {g : Nat} {grammar : Grammar}
    (hg : lib.grammar? g = some grammar) : ∃ draft, drafts[g]? = some draft := by
  have hlt : g < drafts.length := by
    rw [h.length]
    exact (Array.getElem?_eq_some_iff.1 hg).1
  exact ⟨_, List.getElem?_eq_getElem hlt⟩

theorem exists_definition (h : lib.BuiltFrom drafts) {name : String} {target : RuleRef}
    (hown : lib.own? name target.grammar = some target) :
    ∃ body, IsDefinition drafts target.grammar name body ∧
      lib.IsWritten drafts ⟨target, name, body⟩ := by
  obtain ⟨g, i⟩ := target
  obtain ⟨i', hlookup, hi⟩ := Option.map_eq_some_iff.1 hown
  obtain ⟨grammar, hg, hdefined⟩ := Option.bind_eq_some_iff.1 hlookup
  obtain ⟨draft, hdraft⟩ := h.exists_draft hg
  obtain ⟨grammar', hrealizes⟩ := h.realizes hdraft
  cases hg.symm.trans hrealizes.found
  have hname : name ∈ draft.definitions.map (·.1) := by
    rw [← hrealizes.names]
    exact List.mem_map.2 ⟨_, mem_of_lookup_eq_some hdefined, rfl⟩
  obtain ⟨⟨_, body⟩, hbody, rfl⟩ := List.mem_map.1 hname
  obtain ⟨id, hid, himplements⟩ := h.implements hdraft hbody
  have hsame : id = i := by
    rw [lookup, hg] at hid
    simp only [hdefined, Option.some.injEq, RuleRef.mk.injEq, true_and] at hid
    rw [← hid]
    exact (RuleRef.mk.inj hi).2
  subst hsame
  exact ⟨body, ⟨_, hdraft, hbody⟩,
    ⟨⟨body, ⟨_, hdraft, hbody⟩, body.self_mem_subexpressions⟩, _, himplements⟩⟩

/-- Every rule is written somewhere. -/
theorem exists_written (h : lib.BuiltFrom drafts) {r : RuleRef} (hr : lib.rule? r = some rule) :
    ∃ w, w.rule = r ∧ lib.IsWritten drafts w := by
  obtain ⟨g, i⟩ := r
  obtain ⟨grammar, hg, hi⟩ :
      ∃ grammar, lib.grammar? g = some grammar ∧ grammar.rules[i]? = some rule :=
    Option.bind_eq_some_iff.1 hr
  obtain ⟨draft, hdraft⟩ := h.exists_draft hg
  obtain ⟨name, e, id, -, hid, hcontains⟩ :=
    h.owned hdraft hg (Array.getElem?_eq_some_iff.1 hi).1
  obtain ⟨body, -, hbody⟩ := h.exists_definition (own?_of_lookup hid).2
  clear hr hi
  induction hcontains with
  | refl => exact ⟨_, rfl, hbody⟩
  | @tail i j _ hmade ih =>
      obtain ⟨⟨_, owner, part⟩, rfl, hpart⟩ := ih
      obtain ⟨inner, hinner, hj⟩ := hmade
      have hrule : lib.rule? ⟨g, i⟩ = some inner := by rw [rule?, hg, Option.bind_some, hinner]
      obtain ⟨sub, -, hsub⟩ := hpart.exists_part hrule hj
      exact ⟨_, rfl, hsub⟩

/-- A reference leads on to what its name stands for. -/
theorem exists_referred (h : lib.BuiltFrom drafts) (hw : lib.IsWritten drafts w)
    (hrule : lib.rule? w.rule = some rule) (hwrapper : rule.kind.isWrapper = true)
    {target : RuleRef} (htarget : rule.kind.referred = some target) :
    ∃ next, next.rule = target ∧ lib.IsWritten drafts next ∧ lib.LeadsOn drafts w next := by
  obtain ⟨name, himplements⟩ := hw.implements
  obtain ⟨r, owner, e⟩ := w
  have hwraps := himplements.wrapsAs hrule hwrapper
  generalize rule.kind = kind at hwraps htarget
  generalize hbare : e.bare = node at hwraps
  cases hwraps with
  | choice | label => cases htarget
  | ref hlookup =>
      cases htarget
      obtain ⟨body, hbody, hwritten⟩ := h.exists_definition (own?_of_lookup hlookup).2
      exact ⟨_, rfl, hwritten, .ref hbare hlookup hbody⟩
  | inherited hrefers =>
      cases htarget
      obtain ⟨grammar, -, hlookup⟩ := Option.bind_eq_some_iff.1 hrefers
      obtain ⟨inner, -, hinner⟩ := List.exists_of_findSome?_eq_some hlookup
      obtain ⟨body, hbody, hwritten⟩ := h.exists_definition (own?_of_lookup hinner).2
      exact ⟨_, rfl, hwritten, .inherited hbare hrefers hbody⟩

end BuiltFrom

end Library

end Peg
