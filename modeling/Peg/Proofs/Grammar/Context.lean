import Peg.Proofs.Grammar.Implements
import Peg.Proofs.Grammar.Reorder
import Peg.Proofs.Parse.Names

/-!
# Expressions in their places

A place for an expression is a context in one of the definitions of a draft, and with a draft go those
before it and those after it, which may include its grammar. Main statements:
`Expr.mem_subexpressions_iff`, every occurrence of an expression inside another one is in a context,
and `Library.BuiltFrom.implements` and `Library.BuiltFrom.owned`, which tell the rules of a library
from its drafts.
-/

namespace Peg

namespace Expr

/-- An expression with a hole in it. -/
inductive Context where
  | hole
  | seq (before : List Expr) (inner : Context) (after : List Expr)
  | choice (before : List Expr) (inner : Context) (after : List Expr)
  | rep (inner : Context) (least : Nat) (most : Option Nat)
  | ahead (inner : Context)
  | notAhead (inner : Context)
  | upTo (inner : Context)
  | label (inner : Context) (name : String)
  | extended (inner : Context) (extension : Extension)

namespace Context

def fill (e : Expr) : Context → Expr
  | hole => e
  | seq before inner after => .seq (before ++ inner.fill e :: after)
  | choice before inner after => .choice (before ++ inner.fill e :: after)
  | rep inner least most => .rep (inner.fill e) least most
  | ahead inner => .ahead (inner.fill e)
  | notAhead inner => .notAhead (inner.fill e)
  | upTo inner => .upTo (inner.fill e)
  | label inner name => .label (inner.fill e) name
  | extended inner extension => .extended (inner.fill e) extension

end Context

theorem self_mem_subexpressions (e : Expr) : e ∈ e.subexpressions := by
  cases e <;> exact List.mem_cons_self

theorem mem_subexpressionsAll_iff {sub : Expr} {es : List Expr} :
    sub ∈ subexpressionsAll es ↔ ∃ e ∈ es, sub ∈ e.subexpressions := by
  induction es with
  | nil => simp [subexpressionsAll]
  | cons e es ih => simp [subexpressionsAll, ih]

theorem mem_subexpressions_fill {sub e : Expr} (h : sub ∈ e.subexpressions) (C : Context) :
    sub ∈ (C.fill e).subexpressions := by
  induction C with
  | hole => exact h
  | seq before inner after ih | choice before inner after ih =>
      refine List.mem_cons_of_mem _ (mem_subexpressionsAll_iff.2 ⟨inner.fill e, ?_, ih⟩)
      exact List.mem_append_right before List.mem_cons_self
  | rep inner least most ih | ahead inner ih | notAhead inner ih | upTo inner ih | label inner name ih
    | extended inner extension ih => exact List.mem_cons_of_mem _ ih

theorem subexpressions_node {e : Expr} (he : e.IsNode) :
    e.subexpressions = e :: subexpressionsAll e.parts := by
  cases e with
  | extended body extension => exact absurd rfl (he body extension)
  | _ => simp [subexpressions, parts, subexpressionsAll]

theorem exists_context_of_part {sub part e : Expr} (hpart : part ∈ e.parts)
    (h : ∃ C : Context, C.fill sub = part) : ∃ C : Context, C.fill sub = e := by
  obtain ⟨C, rfl⟩ := h
  cases e with
  | seq es =>
      obtain ⟨before, after, rfl⟩ := List.append_of_mem hpart
      exact ⟨.seq before C after, rfl⟩
  | choice es =>
      obtain ⟨before, after, rfl⟩ := List.append_of_mem hpart
      exact ⟨.choice before C after, rfl⟩
  | rep body least most => exact ⟨.rep C least most, by rw [← List.mem_singleton.1 hpart]; rfl⟩
  | ahead body => exact ⟨.ahead C, by rw [← List.mem_singleton.1 hpart]; rfl⟩
  | notAhead body => exact ⟨.notAhead C, by rw [← List.mem_singleton.1 hpart]; rfl⟩
  | upTo stop => exact ⟨.upTo C, by rw [← List.mem_singleton.1 hpart]; rfl⟩
  | label body name => exact ⟨.label C name, by rw [← List.mem_singleton.1 hpart]; rfl⟩
  | _ => cases hpart

/-- The occurrences of an expression inside another one are its contexts there. -/
theorem mem_subexpressions_iff {sub e : Expr} :
    sub ∈ e.subexpressions ↔ ∃ C : Context, C.fill sub = e := by
  constructor
  · intro h
    induction e using Expr.induct with
    | node e he ih =>
        rw [subexpressions_node he] at h
        rcases List.mem_cons.1 h with rfl | h
        · exact ⟨.hole, rfl⟩
        · obtain ⟨part, hpart, hsub⟩ := mem_subexpressionsAll_iff.1 h
          exact exists_context_of_part hpart (ih part hpart hsub)
    | extended body extension ih =>
        rcases List.mem_cons.1 h with rfl | h
        · exact ⟨.hole, rfl⟩
        · obtain ⟨C, rfl⟩ := ih h
          exact ⟨.extended C extension, rfl⟩
  · rintro ⟨C, rfl⟩
    exact mem_subexpressions_fill sub.self_mem_subexpressions C

end Expr

/-- A place for an expression in one of the definitions of one of the drafts of a library. -/
structure Site where
  /-- The drafts of the grammars that are added before and after. -/
  before : List Draft
  after : List Draft
  name : String
  root : Option String
  includes : List Nat
  /-- The definitions before and after. -/
  front : List (String × Expr)
  back : List (String × Expr)
  /-- The name of the definition. -/
  owner : String
  context : Expr.Context

namespace Site

variable (site : Site)

def grammar : Nat := site.before.length

def definitions (e : Expr) : List (String × Expr) :=
  site.front ++ (site.owner, site.context.fill e) :: site.back

def draft (e : Expr) : Draft where
  name := site.name
  definitions := site.definitions e
  root := site.root
  includes := site.includes

def drafts (e : Expr) : List Draft := site.before ++ site.draft e :: site.after

theorem names_definitions (e e' : Expr) :
    (site.definitions e').map (·.1) = (site.definitions e).map (·.1) := by
  simp [definitions]

theorem getElem?_drafts (e e' : Expr) {g : Nat} {draft draft' : Draft}
    (h : (site.drafts e)[g]? = some draft) (h' : (site.drafts e')[g]? = some draft') :
    g ≠ site.grammar ∧ draft' = draft ∨
      g = site.grammar ∧ draft = site.draft e ∧ draft' = site.draft e' := by
  unfold drafts at h h'
  by_cases hg : g = site.grammar
  · subst hg
    simp only [grammar, List.getElem?_append_right (Nat.le_refl _), Nat.sub_self,
      List.getElem?_cons_zero, Option.some.injEq] at h h'
    exact .inr ⟨rfl, h.symm, h'.symm⟩
  · refine .inl ⟨hg, ?_⟩
    by_cases hlt : g < site.before.length
    · rw [List.getElem?_append_left hlt] at h h'
      exact Option.some.inj (h'.symm.trans h)
    · obtain ⟨k, hk⟩ : ∃ k, g - site.before.length = k + 1 :=
        Nat.exists_eq_succ_of_ne_zero (by unfold grammar at hg; omega)
      rw [List.getElem?_append_right (by omega), hk, List.getElem?_cons_succ] at h h'
      exact Option.some.inj (h'.symm.trans h)

def between : Site where
  before := []
  after := []
  name := "Bracketed"
  root := none
  includes := []
  front := []
  back := []
  owner := "bracketed"
  context := .seq [.literal "<"] .hole [.literal ">"]

theorem builtFrom_between {e : Expr} {lib : Library}
    (hadd : Library.add {} (between.draft e) = .ok lib) : lib.BuiltFrom (between.drafts e) :=
  .add .empty (by nofun) hadd

end Site

/-! ## Rules of libraries with more grammars -/

namespace Library

variable {lib : Library}

mutual

theorem Implements.push {g : Nat} {owner : String} {i : Nat} {e : Expr} {name : Option String}
    {x : Option Extension} (hlinked : lib.Linked) (hg : g < lib.grammars.size) (later : Grammar)
    (h : lib.Implements g owner i e name x) :
    (⟨lib.grammars.push later⟩ : Library).Implements g owner i e name x := by
  cases h with
  | text hrule => exact .text (rule?_push_of_eq_some hrule)
  | pattern hp hrule => exact .pattern hp (rule?_push_of_eq_some hrule)
  | range hrule => exact .range (rule?_push_of_eq_some hrule)
  | any hrule => exact .any (rule?_push_of_eq_some hrule)
  | endOfInput hrule => exact .endOfInput (rule?_push_of_eq_some hrule)
  | seq hrule hparts => exact .seq (rule?_push_of_eq_some hrule) (hparts.push hlinked hg later)
  | choice hrule hparts => exact .choice (rule?_push_of_eq_some hrule) (hparts.push hlinked hg later)
  | rep hrule hbody => exact .rep (rule?_push_of_eq_some hrule) (hbody.push hlinked hg later)
  | ahead hrule hbody => exact .ahead (rule?_push_of_eq_some hrule) (hbody.push hlinked hg later)
  | notAhead hrule hbody => exact .notAhead (rule?_push_of_eq_some hrule) (hbody.push hlinked hg later)
  | upTo hrule hbody => exact .upTo (rule?_push_of_eq_some hrule) (hbody.push hlinked hg later)
  | ref htarget hrule => exact .ref ((lookup_push hg).trans htarget) (rule?_push_of_eq_some hrule)
  | inherited htarget hrule =>
      exact .inherited ((hlinked.refers?_push hg _).trans htarget) (rule?_push_of_eq_some hrule)
  | label hrule hbody => exact .label (rule?_push_of_eq_some hrule) (hbody.push hlinked hg later)
  | extended hbody => exact .extended (hbody.push hlinked hg later)

theorem ImplementsAll.push {g : Nat} {owner : String} {is : List Nat} {es : List Expr}
    (hlinked : lib.Linked) (hg : g < lib.grammars.size) (later : Grammar)
    (h : lib.ImplementsAll g owner is es) :
    (⟨lib.grammars.push later⟩ : Library).ImplementsAll g owner is es := by
  cases h with
  | nil => exact .nil
  | cons he hes => exact .cons (he.push hlinked hg later) (hes.push hlinked hg later)

end

namespace BuiltFrom

variable {drafts : List Draft} {g : Nat} {draft : Draft}

theorem getElem?_concat {prior : Library} {last : Draft} (h : prior.BuiltFrom drafts)
    (hdraft : (drafts ++ [last])[g]? = some draft) :
    g < prior.grammars.size ∧ drafts[g]? = some draft ∨ g = prior.grammars.size ∧ draft = last := by
  rw [← h.length]
  by_cases hlt : g < drafts.length
  · rw [List.getElem?_append_left hlt] at hdraft
    exact .inl ⟨hlt, hdraft⟩
  · have hbound := (List.getElem?_eq_some_iff.1 hdraft).1
    obtain rfl : g = drafts.length := by
      simp at hbound
      omega
    rw [List.getElem?_concat_length] at hdraft
    exact .inr ⟨rfl, (Option.some.inj hdraft).symm⟩

/-- The name of every definition of a draft stands for a rule of its grammar that implements it. -/
theorem implements (h : lib.BuiltFrom drafts) (hdraft : drafts[g]? = some draft) {name : String}
    {e : Expr} (he : (name, e) ∈ draft.definitions) :
    ∃ id, lib.lookup g name = some ⟨g, id⟩ ∧
      lib.Implements g name id e (some name) e.attached := by
  induction h generalizing g draft with
  | empty => simp at hdraft
  | @add prior later drafts added hdrafts hincludes hadd ih =>
      have hlinked := hdrafts.built.linked
      obtain ⟨grammar, hbuild, rfl⟩ := exists_build_of_add hadd
      rcases hdrafts.getElem?_concat hdraft with ⟨hg, hold⟩ | ⟨rfl, rfl⟩
      · obtain ⟨id, hid, himplements⟩ := ih hold he
        exact ⟨id, (lookup_push hg).trans hid, himplements.push hlinked hg grammar⟩
      · exact implements_of_build hlinked hincludes hbuild he

/-- Every rule of a grammar is contained in the rule of one of the definitions of its draft. -/
theorem owned (h : lib.BuiltFrom drafts) (hdraft : drafts[g]? = some draft) {grammar : Grammar}
    (hg : lib.grammar? g = some grammar) {i : Nat} (hi : i < grammar.rules.size) :
    ∃ name e id, (name, e) ∈ draft.definitions ∧ lib.lookup g name = some ⟨g, id⟩ ∧
      Contains grammar.rules id i := by
  induction h generalizing g draft with
  | empty => simp at hdraft
  | @add prior later drafts added hdrafts hincludes hadd ih =>
      obtain ⟨last, hbuild, rfl⟩ := exists_build_of_add hadd
      rcases hdrafts.getElem?_concat hdraft with ⟨hlt, hold⟩ | ⟨rfl, rfl⟩
      · rw [grammar?_push, if_neg (by omega)] at hg
        obtain ⟨name, e, id, hmem, hid, hcontains⟩ := ih hold hg
        exact ⟨name, e, id, hmem, (lookup_push hlt).trans hid, hcontains⟩
      · rw [grammar?_push, if_pos rfl] at hg
        cases hg
        have hspells := spells_of_build hbuild
        have hincluded := (build_references hbuild).1
        have hdistinct := ((exists_build_iff hincludes).1 ⟨grammar, hbuild⟩).distinct
        rw [← hspells.names] at hdistinct
        obtain ⟨⟨name, id⟩, ⟨hentry, hcontains⟩, -⟩ := hspells.owned i hi
        have hname : name ∈ grammar.ruleNames := List.mem_map.2 ⟨_, hentry, rfl⟩
        rw [hspells.names] at hname
        obtain ⟨⟨_, e⟩, hmem, rfl⟩ := List.mem_map.1 hname
        refine ⟨_, e, id, hmem, ?_, hcontains⟩
        rw [lookup_push_size (hincluded ▸ hincludes) hincluded, lookupDraft,
          (lookup_eq_some_iff_mem hdistinct).2 hentry]

end BuiltFrom

end Library

end Peg
