import Peg.Proofs.Grammar.Accepted
import Peg.Proofs.Grammar.Counterparts

/-!
# Replacing an expression in its place

Expressions that have the same faults may replace each other: what is wrong with a draft does not
depend on what else a faultless part of it is. Main statement: `Site.builtFrom_iff`, a library is
built with the one expression in the place if and only if one is built with the other.
-/

namespace Peg

namespace Expr

/-- All parts of the expression have the property, and so has the expression. -/
def Throughout (P : Expr → Prop) (e : Expr) : Prop := ∀ sub ∈ e.subexpressions, P sub

section Throughout

variable {P : Expr → Prop}

theorem throughout_all_iff {es : List Expr} :
    (∀ sub ∈ subexpressionsAll es, P sub) ↔ ∀ e ∈ es, e.Throughout P := by
  constructor
  · intro h e he sub hsub
    exact h sub (mem_subexpressionsAll_iff.2 ⟨e, he, hsub⟩)
  · intro h sub hsub
    obtain ⟨e, he, hsub⟩ := mem_subexpressionsAll_iff.1 hsub
    exact h e he sub hsub

theorem throughout_node_iff {e : Expr} (he : e.IsNode) :
    e.Throughout P ↔ P e ∧ ∀ part ∈ e.parts, part.Throughout P := by
  rw [Throughout, subexpressions_node he, List.forall_mem_cons, throughout_all_iff]

theorem throughout_single_iff {e part : Expr} (he : e.IsNode) (hparts : e.parts = [part]) (hown : P e) :
    e.Throughout P ↔ part.Throughout P := by
  rw [throughout_node_iff he, hparts, List.forall_mem_singleton, and_iff_right hown]

theorem throughout_extended_iff {e : Expr} {extension : Extension} :
    (extended e extension).Throughout P ↔ P (.extended e extension) ∧ e.Throughout P :=
  List.forall_mem_cons

theorem throughout_node_congr (before after : List Expr) {part part' e e' : Expr} (he : e.IsNode)
    (he' : e'.IsNode) (hparts : e.parts = before ++ part :: after)
    (hparts' : e'.parts = before ++ part' :: after) (hown : P e ↔ P e')
    (h : part.Throughout P ↔ part'.Throughout P) : e.Throughout P ↔ e'.Throughout P := by
  rw [throughout_node_iff he, throughout_node_iff he', hparts, hparts', hown]
  simp only [List.forall_mem_append, List.forall_mem_cons, h]

theorem throughout_fill_iff {e e' : Expr} (h : e.Throughout P ↔ e'.Throughout P)
    (hown : ∀ C : Context, C ≠ .hole → (P (C.fill e) ↔ P (C.fill e'))) (C : Context) :
    (C.fill e).Throughout P ↔ (C.fill e').Throughout P := by
  induction C with
  | hole => exact h
  | seq before inner after ih =>
      have hown := hown (.seq before inner after) nofun
      exact throughout_node_congr before after nofun nofun rfl rfl hown ih
  | choice before inner after ih =>
      have hown := hown (.choice before inner after) nofun
      exact throughout_node_congr before after nofun nofun rfl rfl hown ih
  | rep inner least most ih =>
      exact throughout_node_congr [] [] nofun nofun rfl rfl (hown (.rep inner least most) nofun) ih
  | ahead inner ih =>
      exact throughout_node_congr [] [] nofun nofun rfl rfl (hown (.ahead inner) nofun) ih
  | notAhead inner ih =>
      exact throughout_node_congr [] [] nofun nofun rfl rfl (hown (.notAhead inner) nofun) ih
  | upTo inner ih =>
      exact throughout_node_congr [] [] nofun nofun rfl rfl (hown (.upTo inner) nofun) ih
  | label inner name ih =>
      exact throughout_node_congr [] [] nofun nofun rfl rfl (hown (.label inner name) nofun) ih
  | extended inner extension ih =>
      have hown := hown (.extended inner extension) nofun
      exact throughout_extended_iff.trans ((and_congr hown ih).trans throughout_extended_iff.symm)

end Throughout

/-- Whatever the drafts are, the expressions have the same faults or none. -/
structure AsFaultless (e e' : Expr) : Prop where
  sound : e.Throughout Sound ↔ e'.Throughout Sound
  resolved : ∀ draft lib rule, e.Throughout (Resolved draft lib rule) ↔
    e'.Throughout (Resolved draft lib rule)

theorem sound_fill_iff {C : Context} (hC : C ≠ .hole) (e e' : Expr) :
    (C.fill e).Sound ↔ (C.fill e').Sound := by
  cases C with
  | hole => exact absurd rfl hC
  | seq | choice => simp [Context.fill, Sound]
  | rep _ _ most => cases most <;> exact Iff.rfl
  | _ => exact Iff.rfl

theorem resolved_fill {C : Context} (hC : C ≠ .hole) (e : Expr) (draft : Draft) (lib : Library)
    (rule : String) : (C.fill e).Resolved draft lib rule := by
  cases C with
  | hole => exact absurd rfl hC
  | _ => trivial

namespace AsFaultless

variable {e e' : Expr}

theorem symm (h : e.AsFaultless e') : e'.AsFaultless e :=
  ⟨h.sound.symm, fun draft lib rule => (h.resolved draft lib rule).symm⟩

theorem fill (h : e.AsFaultless e') (C : Context) : (C.fill e).AsFaultless (C.fill e') where
  sound := throughout_fill_iff h.sound (fun _ hC => sound_fill_iff hC e e') C
  resolved draft lib rule := by
    refine throughout_fill_iff (h.resolved draft lib rule) (fun D hD => ?_) C
    exact iff_of_true (resolved_fill hD e draft lib rule) (resolved_fill hD e' draft lib rule)

end AsFaultless

end Expr

/-- The drafts include the same, define the same names by expressions that have the same faults, and
ask for the same root. -/
structure Draft.AsFaultless (draft draft' : Draft) : Prop where
  includes : draft'.includes = draft.includes
  names : draft'.definitions.map (·.1) = draft.definitions.map (·.1)
  root : draft'.root = draft.root
  definitions : ∀ definition' ∈ draft'.definitions, ∃ definition ∈ draft.definitions,
    definition'.1 = definition.1 ∧ definition.2.AsFaultless definition'.2

theorem Draft.AsFaultless.refl (draft : Draft) : draft.AsFaultless draft where
  includes := rfl
  names := rfl
  root := rfl
  definitions definition hmem :=
    ⟨definition, hmem, rfl, Iff.rfl, fun _ _ _ => Iff.rfl⟩

/-- The names of both libraries stand for something in the same grammars. -/
def Library.SameNames (lib lib' : Library) : Prop :=
  ∀ g name, (lib'.lookup g name).isSome = (lib.lookup g name).isSome

namespace Draft

variable {draft draft' : Draft} {lib lib' : Library}

theorem inherits_congr (hincludes : draft'.includes = draft.includes) (hlib : lib.SameNames lib')
    {name : String} : draft'.Inherits lib' name ↔ draft.Inherits lib name := by
  rw [← Library.isSome_lookupIncluded_iff, ← Library.isSome_lookupIncluded_iff, hincludes,
    Library.lookupIncluded, Library.lookupIncluded, List.findSome?_isSome_iff,
    List.findSome?_isSome_iff]
  simp only [hlib _ _]

theorem AsFaultless.resolves_iff (h : draft.AsFaultless draft') (hlib : lib.SameNames lib')
    {name : String} : draft'.Resolves lib' name ↔ draft.Resolves lib name := by
  unfold Resolves Defines
  rw [h.names, inherits_congr h.includes hlib]

theorem AsFaultless.resolved_eq (h : draft.AsFaultless draft') (hlib : lib.SameNames lib')
    (rule : String) : Expr.Resolved draft' lib' rule = Expr.Resolved draft lib rule := by
  funext e
  apply propext
  cases e with
  | ref name => exact h.resolves_iff hlib
  | inherited name => exact inherits_congr h.includes hlib
  | _ => exact Iff.rfl

theorem WellFormed.of_asFaultless (hdraft : draft.WellFormed lib) (h : draft.AsFaultless draft')
    (hlib : lib.SameNames lib') : draft'.WellFormed lib' where
  distinct := by
    rw [h.names]
    exact hdraft.distinct
  sound definition' hmem := by
    obtain ⟨definition, hmem, -, hfaultless⟩ := h.definitions definition' hmem
    exact hfaultless.sound.1 (hdraft.sound definition hmem)
  resolved definition' hmem := by
    obtain ⟨definition, hmem, hname, hfaultless⟩ := h.definitions definition' hmem
    rw [hname, h.resolved_eq hlib]
    exact (hfaultless.resolved draft lib definition.1).1 (hdraft.resolved definition hmem)
  root := by
    have hroot := hdraft.root
    rw [h.root]
    cases hname : draft.root with
    | some name =>
        rw [hname] at hroot
        exact (h.resolves_iff hlib).2 hroot
    | none =>
        rw [hname] at hroot
        have hnil : draft'.definitions = [] ↔ draft.definitions = [] := by
          rw [← List.map_eq_nil_iff (f := (·.1)), h.names, List.map_eq_nil_iff]
        show draft'.definitions ≠ [] ∨ draft'.includes ≠ []
        rw [Ne, hnil, h.includes]
        exact hroot

end Draft

namespace Site

variable {site : Site} {e e' : Expr}

theorem asFaultless_draft (site : Site) (h : e.AsFaultless e') :
    (site.draft e).AsFaultless (site.draft e') where
  includes := rfl
  names := site.names_definitions e e'
  root := rfl
  definitions definition' hmem := by
    have hkeep {definition : String × Expr} (hmem : definition ∈ (site.draft e).definitions) :
        ∃ kept ∈ (site.draft e).definitions,
          definition.1 = kept.1 ∧ kept.2.AsFaultless definition.2 :=
      ⟨definition, hmem, rfl, Iff.rfl, fun _ _ _ => Iff.rfl⟩
    rcases List.mem_append.1 hmem with hfront | hback
    · exact hkeep (List.mem_append_left _ hfront)
    rcases List.mem_cons.1 hback with rfl | hback
    · exact ⟨(site.owner, site.context.fill e), List.mem_append_right _ List.mem_cons_self, rfl,
        h.fill site.context⟩
    · exact hkeep (List.mem_append_right _ (List.mem_cons_of_mem _ hback))

theorem exists_builtFrom_concat {lib : Library} {drafts : List Draft} {draft : Draft}
    (h : lib.BuiltFrom drafts) (hincludes : ∀ g ∈ draft.includes, g < lib.grammars.size)
    (hdraft : draft.WellFormed lib) : ∃ later : Library, later.BuiltFrom (drafts ++ [draft]) := by
  obtain ⟨later, hadd⟩ := Library.exists_add_iff.2 ((Library.exists_build_iff hincludes).2 hdraft)
  exact ⟨later, h.add hincludes hadd⟩

theorem exists_wellFormed_of_concat {lib : Library} {drafts : List Draft} {draft : Draft}
    (h : lib.BuiltFrom (drafts ++ [draft])) :
    ∃ prior : Library, prior.BuiltFrom drafts ∧ (∀ g ∈ draft.includes, g < prior.grammars.size) ∧
      draft.WellFormed prior := by
  generalize hall : drafts ++ [draft] = all at h
  cases h with
  | empty => simp at hall
  | @add prior _ earlier last hprior hincludes hadd =>
      obtain ⟨rfl, hlast⟩ := List.append_inj' hall rfl
      cases hlast
      exact ⟨prior, hprior, hincludes,
        (Library.exists_build_iff hincludes).1 (Library.exists_add_iff.1 ⟨_, hadd⟩)⟩

theorem exists_builtFrom (h : e.AsFaultless e') {lib : Library} (hlib : lib.BuiltFrom (site.drafts e)) :
    ∃ lib' : Library, lib'.BuiltFrom (site.drafts e') := by
  obtain ⟨before, after, name, root, includes, front, back, owner, context⟩ := site
  -- the drafts after the place are the last to be added
  induction after using List.reverseRecOn generalizing lib with
  | nil =>
      obtain ⟨prior, hprior, hincludes, hdraft⟩ := exists_wellFormed_of_concat hlib
      exact exists_builtFrom_concat hprior hincludes
        (hdraft.of_asFaultless (asFaultless_draft _ h) fun _ _ => rfl)
  | append_singleton after last ih =>
      have hsplit (e : Expr) : Site.drafts
          ⟨before, after ++ [last], name, root, includes, front, back, owner, context⟩ e =
          Site.drafts ⟨before, after, name, root, includes, front, back, owner, context⟩ e ++ [last] := by
        simp [drafts, draft, definitions]
      rw [hsplit] at hlib
      rw [hsplit]
      obtain ⟨prior, hprior, hincludes, hdraft⟩ := exists_wellFormed_of_concat hlib
      obtain ⟨prior', hprior'⟩ := ih hprior
      have hsize : prior'.grammars.size = prior.grammars.size := by
        rw [← hprior.length, ← hprior'.length]
        simp [drafts]
      have hnames : prior.SameNames prior' := by
        intro g name
        have hrel := lookup_counterparts hprior hprior' g name
        generalize prior.lookup g name = found at hrel ⊢
        generalize prior'.lookup g name = found' at hrel ⊢
        cases hrel <;> rfl
      exact exists_builtFrom_concat hprior' (by rw [hsize]; exact hincludes)
        (hdraft.of_asFaultless (.refl last) hnames)

/-- Expressions with the same faults may replace each other in every place. -/
theorem builtFrom_iff (site : Site) (h : e.AsFaultless e') :
    (∃ lib : Library, lib.BuiltFrom (site.drafts e)) ↔
      ∃ lib' : Library, lib'.BuiltFrom (site.drafts e') :=
  ⟨fun ⟨_, hlib⟩ => exists_builtFrom h hlib, fun ⟨_, hlib'⟩ => exists_builtFrom h.symm hlib'⟩

end Site

end Peg
