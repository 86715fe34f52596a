import Peg.Proofs.Grammar.Context
import Peg.Proofs.Semantics.Echo

/-!
# Two expressions in one place

When another expression is put in a place of a definition, the rules of the library get other numbers,
but each still has the part that it had. The rules of both libraries that implement the same are
counterparts, and so are those around the place. Main statements: `Site.Counterpart.cases`,
counterparts refer to counterparts unless they are what was put in the place, and
`Site.lookup_counterparts` and `Site.root_counterparts`, names and roots stand for counterparts.
-/

namespace Peg

namespace Library

def part? (lib : Library) (g i n : Nat) : Option Nat :=
  (lib.rule? ⟨g, i⟩).bind fun rule => rule.kind.children[n]?

/-- The number of the rule that the hole of a context became, from that of the whole. -/
def hole? (lib : Library) (g : Nat) : Expr.Context → Nat → Option Nat
  | .hole, i => some i
  | .seq before inner _, i | .choice before inner _, i =>
    (lib.part? g i before.length).bind (lib.hole? g inner)
  | .rep inner _ _, i | .ahead inner, i | .notAhead inner, i | .upTo inner, i | .label inner _, i =>
    (lib.part? g i 0).bind (lib.hole? g inner)
  | .extended inner _, i => lib.hole? g inner i

end Library

/-- The name of the rule in the hole of a context: that of the whole where nothing but extensions is
around the hole. -/
def Expr.Context.holeName (name : Option String) : Expr.Context → Option String
  | .hole => name
  | .extended inner _ => inner.holeName name
  | _ => none

@[simp]
theorem Expr.Context.holeName_none (C : Expr.Context) : C.holeName none = none := by
  induction C with
  | extended inner _ ih => exact ih
  | _ => rfl

namespace Site

variable (site : Site) (e e' : Expr) (lib lib' : Library)

def rule? (lib : Library) : Option RuleRef :=
  (lib.lookup site.grammar site.owner).bind fun r =>
    (lib.hole? site.grammar site.context r.rule).map fun i => ⟨site.grammar, i⟩

/-- The second rule is in the library with the second expression in the place what the first one is in
the library with the first: both implement the same expression, or the same context of the two. -/
inductive Counterpart : RuleRef → RuleRef → Prop
  | same {g owner i i' body name x} : lib.Implements g owner i body name x →
      lib'.Implements g owner i' body name x → Counterpart ⟨g, i⟩ ⟨g, i'⟩
  | changed {i i' name x x'} (C : Expr.Context) :
      lib.Implements site.grammar site.owner i (C.fill e) name x →
      lib'.Implements site.grammar site.owner i' (C.fill e') name x' →
      (lib'.hole? site.grammar C i').map (RuleRef.mk site.grammar) = site.rule? lib' →
      Counterpart ⟨site.grammar, i⟩ ⟨site.grammar, i'⟩

end Site

theorem Library.Implements.knows {lib : Library} {g i : Nat} {owner : String} {e : Expr}
    {name : Option String} {x : Option Extension} (h : lib.Implements g owner i e name x) :
    lib.Knows ⟨g, i⟩ := by
  induction e using Expr.induct with
  | extended body extension ih =>
      cases h with
      | extended h => exact ih h
  | node body hnode _ =>
      cases h with
      | extended _ => exact absurd rfl (hnode _ _)
      | text hrule | range hrule | any hrule | endOfInput hrule | rep hrule _ | ahead hrule _
        | notAhead hrule _ | upTo hrule _ | seq hrule _ | choice hrule _ | label hrule _
        | pattern _ hrule | ref _ hrule | inherited _ hrule =>
          exact Option.isSome_iff_exists.2 ⟨_, hrule⟩

theorem Site.Counterpart.knows {site : Site} {e e' : Expr} {lib lib' : Library} {r r' : RuleRef}
    (h : site.Counterpart e e' lib lib' r r') : lib.Knows r ∧ lib'.Knows r' := by
  cases h with
  | same h h' => exact ⟨h.knows, h'.knows⟩
  | changed C h h' _ => exact ⟨h.knows, h'.knows⟩

/-- The rules have kinds that correspond to each other, the same label and the names given. -/
inductive Library.Corresponding (lib lib' : Library) (S : RuleRef → RuleRef → Prop)
    (r r' : RuleRef) (name name' : Option String) : Prop
  | intro {rule rule' : Rule RuleRef} : lib.rule? r = some rule → lib'.rule? r' = some rule' →
      rule.kind.Corresponds S r r' rule'.kind → rule.name = name → rule'.name = name' →
      rule'.label = rule.label → Corresponding lib lib' S r r' name name'

namespace Library

variable {lib lib' : Library} {S : RuleRef → RuleRef → Prop} {g : Nat} {owner : String}

omit S in
theorem rel_of_eq_some {α β : Type} {S : α → β → Prop} {x : Option α} {y : Option β} {a : α} {b : β}
    (h : Option.Rel S x y) (hx : x = some a) (hy : y = some b) : S a b := by
  rw [hx, hy] at h
  cases h with
  | some hab => exact hab

theorem ImplementsAll.forall₂ (hS : ∀ {i i' body}, lib.Implements g owner i body none body.attached →
      lib'.Implements g owner i' body none body.attached → S ⟨g, i⟩ ⟨g, i'⟩)
    {is is' : List Nat} {es : List Expr} (h : lib.ImplementsAll g owner is es)
    (h' : lib'.ImplementsAll g owner is' es) :
    List.Forall₂ S (is.map (RuleRef.mk g)) (is'.map (RuleRef.mk g)) := by
  induction es generalizing is is' with
  | nil =>
      cases h
      cases h'
      exact .nil
  | cons e es ih =>
      cases h with
      | cons he hes =>
          cases h' with
          | cons he' hes' => exact .cons (hS he he') (ih hes hes')

variable (hS : ∀ {i i' body}, lib.Implements g owner i body none body.attached →
    lib'.Implements g owner i' body none body.attached → S ⟨g, i⟩ ⟨g, i'⟩)
  (hrefers : ∀ kind, Option.Rel S (lib.refers? g kind) (lib'.refers? g kind))

include hS hrefers

theorem Implements.corresponding {i i' : Nat} {body : Expr} {name name' : Option String}
    {x x' : Option Extension} (h : lib.Implements g owner i body name x)
    (h' : lib'.Implements g owner i' body name' x') :
    lib.Corresponding lib' S ⟨g, i⟩ ⟨g, i'⟩ name name' := by
  induction body using Expr.induct with
  | extended body extension ih =>
      cases h with
      | extended h =>
          cases h' with
          | extended h' => exact ih h h'
  | node body hnode _ =>
      cases h with
      | extended _ => exact absurd rfl (hnode _ _)
      | text hrule =>
          cases h' with
          | text hrule' => exact .intro hrule hrule' (.text _ _) rfl rfl rfl
      | pattern hp hrule =>
          cases h' with
          | pattern hp' hrule' =>
              cases hp.symm.trans hp'
              exact .intro hrule hrule' (.terminal _) rfl rfl rfl
      | range hrule =>
          cases h' with
          | range hrule' => exact .intro hrule hrule' (.terminal _) rfl rfl rfl
      | any hrule =>
          cases h' with
          | any hrule' => exact .intro hrule hrule' (.terminal _) rfl rfl rfl
      | endOfInput hrule =>
          cases h' with
          | endOfInput hrule' => exact .intro hrule hrule' (.terminal _) rfl rfl rfl
      | seq hrule hparts =>
          cases h' with
          | seq hrule' hparts' =>
              exact .intro hrule hrule' (.sequence (hparts.forall₂ hS hparts')) rfl rfl rfl
      | choice hrule hoptions =>
          cases h' with
          | choice hrule' hoptions' =>
              exact .intro hrule hrule' (.choice (hoptions.forall₂ hS hoptions')) rfl rfl rfl
      | rep hrule hbody =>
          cases h' with
          | rep hrule' hbody' => exact .intro hrule hrule' (.rep _ _ (hS hbody hbody')) rfl rfl rfl
      | ahead hrule hbody =>
          cases h' with
          | ahead hrule' hbody' => exact .intro hrule hrule' (.ahead (hS hbody hbody')) rfl rfl rfl
      | notAhead hrule hbody =>
          cases h' with
          | notAhead hrule' hbody' =>
              exact .intro hrule hrule' (.notAhead (hS hbody hbody')) rfl rfl rfl
      | upTo hrule hstop =>
          cases h' with
          | upTo hrule' hstop' => exact .intro hrule hrule' (.upTo (hS hstop hstop')) rfl rfl rfl
      | @ref _ other target _ _ htarget hrule =>
          cases h' with
          | ref htarget' hrule' =>
              have hs := rel_of_eq_some (hrefers (.ref other target)) htarget htarget'
              exact .intro hrule hrule' (.ref _ hs) rfl rfl rfl
      | @inherited _ other target _ _ htarget hrule =>
          cases h' with
          | inherited htarget' hrule' =>
              have hs := rel_of_eq_some (hrefers (.inherited (other.getD owner) target)) htarget
                htarget'
              exact .intro hrule hrule' (.inherited _ hs) rfl rfl rfl
      | label hrule hbody =>
          cases h' with
          | label hrule' hbody' => exact .intro hrule hrule' (.label (hS hbody hbody')) rfl rfl rfl

end Library

theorem Library.ImplementsAll.exists_middle {lib : Library} {g : Nat} {owner : String} {is : List Nat}
    {before after : List Expr} {e : Expr} (h : lib.ImplementsAll g owner is (before ++ e :: after)) :
    ∃ j, is[before.length]? = some j ∧ lib.Implements g owner j e none e.attached := by
  induction before generalizing is with
  | nil =>
      cases h with
      | cons he _ => exact ⟨_, rfl, he⟩
  | cons first before ih =>
      cases h with
      | cons _ hrest => exact ih hrest

theorem Library.Implements.exists_hole {lib : Library} {g i : Nat} {owner : String} {e : Expr}
    {C : Expr.Context} {name : Option String} {x : Option Extension}
    (h : lib.Implements g owner i (C.fill e) name x) :
    ∃ j x, lib.hole? g C i = some j ∧ lib.Implements g owner j e (C.holeName name) x := by
  induction C generalizing i name x with
  | hole => exact ⟨i, x, rfl, h⟩
  | extended inner extension ih =>
      cases h with
      | extended h => exact ih h
  | seq before inner after ih =>
      cases h with
      | seq hrule hparts =>
          obtain ⟨j, hj, himplements⟩ := hparts.exists_middle
          simpa [Library.hole?, Library.part?, hrule, Kind.children, hj, Expr.Context.holeName] using
            ih himplements
  | choice before inner after ih =>
      cases h with
      | choice hrule hoptions =>
          obtain ⟨j, hj, himplements⟩ := hoptions.exists_middle
          simpa [Library.hole?, Library.part?, hrule, Kind.children, hj, Expr.Context.holeName] using
            ih himplements
  | rep inner least most ih =>
      cases h with
      | rep hrule hbody =>
          simpa [Library.hole?, Library.part?, hrule, Kind.children, Expr.Context.holeName] using ih hbody
  | ahead inner ih =>
      cases h with
      | ahead hrule hbody =>
          simpa [Library.hole?, Library.part?, hrule, Kind.children, Expr.Context.holeName] using ih hbody
  | notAhead inner ih =>
      cases h with
      | notAhead hrule hbody =>
          simpa [Library.hole?, Library.part?, hrule, Kind.children, Expr.Context.holeName] using ih hbody
  | upTo inner ih =>
      cases h with
      | upTo hrule hbody =>
          simpa [Library.hole?, Library.part?, hrule, Kind.children, Expr.Context.holeName] using ih hbody
  | label inner label ih =>
      cases h with
      | label hrule hbody =>
          simpa [Library.hole?, Library.part?, hrule, Kind.children, Expr.Context.holeName] using ih hbody

theorem Library.Realizes.lookup_of_not_defines {lib : Library} {g : Nat} {draft : Draft}
    {grammar : Grammar} (h : lib.Realizes g draft grammar) {name : String}
    (hname : ¬ draft.Defines name) :
    lib.lookup g name =
      draft.includes.reverse.findSome? fun inner => if inner < g then lib.lookup inner name else none := by
  have hown : grammar.defined.lookup name = none := by
    rw [← Option.not_isSome_iff_eq_none, isSome_lookup_iff_mem]
    change name ∉ grammar.ruleNames
    rw [h.names]
    exact hname
  rw [Library.lookup, h.found]
  simp only [hown, h.includes]

namespace Site

variable {site : Site} {e e' : Expr} {lib lib' : Library}

theorem part?_zero {g i j : Nat} {rule : Rule RuleRef} (hrule : lib.rule? ⟨g, i⟩ = some rule)
    (hchildren : rule.kind.children = [j]) : lib.part? g i 0 = some j := by
  simp [Library.part?, hrule, hchildren]

theorem forall₂_changed {before after : List Expr} {C : Expr.Context} {is is' : List Nat}
    (h : lib.ImplementsAll site.grammar site.owner is (before ++ C.fill e :: after))
    (h' : lib'.ImplementsAll site.grammar site.owner is' (before ++ C.fill e' :: after))
    (hhole : (is'[before.length]?.bind (lib'.hole? site.grammar C)).map
      (RuleRef.mk site.grammar) = site.rule? lib') :
    List.Forall₂ (site.Counterpart e e' lib lib') (is.map (RuleRef.mk site.grammar))
      (is'.map (RuleRef.mk site.grammar)) := by
  induction before generalizing is is' with
  | nil =>
      cases h with
      | cons hfirst hrest =>
          cases h' with
          | cons hfirst' hrest' =>
              exact .cons (.changed C hfirst hfirst' hhole)
                (hrest.forall₂ (fun hsame hsame' => .same hsame hsame') hrest')
  | cons first before ih =>
      cases h with
      | cons hfirst hrest =>
          cases h' with
          | cons hfirst' hrest' => exact .cons (.same hfirst hfirst') (ih hrest hrest' hhole)

theorem corresponding_changed {C : Expr.Context} {i i' : Nat} {name : Option String} {x x' : Option Extension}
    (h : lib.Implements site.grammar site.owner i (C.fill e) name x)
    (h' : lib'.Implements site.grammar site.owner i' (C.fill e') name x')
    (hhole : (lib'.hole? site.grammar C i').map (RuleRef.mk site.grammar) = site.rule? lib') :
    lib.Corresponding lib' (site.Counterpart e e' lib lib') ⟨site.grammar, i⟩ ⟨site.grammar, i'⟩ name
        name ∨
      lib.Implements site.grammar site.owner i e name x ∧
        lib'.Implements site.grammar site.owner i' e' name x' ∧
        site.rule? lib' = some ⟨site.grammar, i'⟩ := by
  induction C generalizing x x' with
  | hole => exact .inr ⟨h, h', hhole.symm⟩
  | extended inner extension ih =>
      cases h with
      | extended h =>
          cases h' with
          | extended h' => exact ih h h' hhole
  | seq before inner after ih =>
      cases h with
      | seq hrule hparts =>
          cases h' with
          | seq hrule' hparts' =>
              refine .inl (.intro hrule hrule' (.sequence ?_) rfl rfl rfl)
              refine forall₂_changed hparts hparts' ?_
              rw [← hhole]
              simp only [Library.hole?, Library.part?, hrule', Option.bind_some, Kind.children]
  | choice before inner after ih =>
      cases h with
      | choice hrule hoptions =>
          cases h' with
          | choice hrule' hoptions' =>
              refine .inl (.intro hrule hrule' (.choice ?_) rfl rfl rfl)
              refine forall₂_changed hoptions hoptions' ?_
              rw [← hhole]
              simp only [Library.hole?, Library.part?, hrule', Option.bind_some, Kind.children]
  | rep inner least most ih =>
      cases h with
      | rep hrule hbody =>
          cases h' with
          | rep hrule' hbody' =>
              simp only [Library.hole?, part?_zero hrule' rfl, Option.bind_some] at hhole
              exact .inl (.intro hrule hrule' (.rep _ _ (.changed inner hbody hbody' hhole)) rfl rfl rfl)
  | ahead inner ih =>
      cases h with
      | ahead hrule hbody =>
          cases h' with
          | ahead hrule' hbody' =>
              simp only [Library.hole?, part?_zero hrule' rfl, Option.bind_some] at hhole
              exact .inl (.intro hrule hrule' (.ahead (.changed inner hbody hbody' hhole)) rfl rfl rfl)
  | notAhead inner ih =>
      cases h with
      | notAhead hrule hbody =>
          cases h' with
          | notAhead hrule' hbody' =>
              simp only [Library.hole?, part?_zero hrule' rfl, Option.bind_some] at hhole
              exact .inl (.intro hrule hrule' (.notAhead (.changed inner hbody hbody' hhole)) rfl rfl rfl)
  | upTo inner ih =>
      cases h with
      | upTo hrule hbody =>
          cases h' with
          | upTo hrule' hbody' =>
              simp only [Library.hole?, part?_zero hrule' rfl, Option.bind_some] at hhole
              exact .inl (.intro hrule hrule' (.upTo (.changed inner hbody hbody' hhole)) rfl rfl rfl)
  | label inner label ih =>
      cases h with
      | label hrule hbody =>
          cases h' with
          | label hrule' hbody' =>
              simp only [Library.hole?, part?_zero hrule' rfl, Option.bind_some] at hhole
              exact .inl (.intro hrule hrule' (.label (.changed inner hbody hbody' hhole)) rfl rfl rfl)

theorem exists_rule?_named (hlib : lib.BuiltFrom (site.drafts e)) :
    ∃ i x, site.rule? lib = some ⟨site.grammar, i⟩ ∧ lib.Implements site.grammar site.owner i e
      (site.context.holeName (some site.owner)) x := by
  have hdraft : (site.drafts e)[site.grammar]? = some (site.draft e) := by
    simp [drafts, grammar]
  have hmem : (site.owner, site.context.fill e) ∈ (site.draft e).definitions :=
    List.mem_append_right _ List.mem_cons_self
  obtain ⟨id, hid, himplements⟩ := hlib.implements hdraft hmem
  obtain ⟨i, x, hhole, hplace⟩ := himplements.exists_hole
  refine ⟨i, x, ?_, hplace⟩
  rw [rule?, hid, Option.bind_some, hhole]
  rfl

theorem exists_rule? (hlib : lib.BuiltFrom (site.drafts e)) :
    ∃ i name x, site.rule? lib = some ⟨site.grammar, i⟩ ∧
      lib.Implements site.grammar site.owner i e name x := by
  obtain ⟨i, x, hrule, himplements⟩ := exists_rule?_named hlib
  exact ⟨i, _, x, hrule, himplements⟩

/-! ## Names and roots -/

section BuiltFrom

variable (hlib : lib.BuiltFrom (site.drafts e)) (hlib' : lib'.BuiltFrom (site.drafts e'))
include hlib hlib'

theorem exists_realizes {g : Nat} {grammar : Grammar} (hg : lib.grammar? g = some grammar) :
    ∃ draft draft' grammar', (site.drafts e)[g]? = some draft ∧ (site.drafts e')[g]? = some draft' ∧
      lib.Realizes g draft grammar ∧ lib'.Realizes g draft' grammar' := by
  have hlt : g < (site.drafts e).length := by
    rw [hlib.length]
    exact (Array.getElem?_eq_some_iff.1 hg).1
  have hlt' : g < (site.drafts e').length := by simpa [drafts] using hlt
  have hdraft := List.getElem?_eq_getElem hlt
  have hdraft' := List.getElem?_eq_getElem hlt'
  obtain ⟨found, hfound⟩ := hlib.realizes hdraft
  obtain ⟨grammar', hgrammar'⟩ := hlib'.realizes hdraft'
  cases hfound.found.symm.trans hg
  exact ⟨_, _, grammar', hdraft, hdraft', hfound, hgrammar'⟩

omit hlib hlib' in
theorem interface_eq {g : Nat} {draft draft' : Draft} (hdraft : (site.drafts e)[g]? = some draft)
    (hdraft' : (site.drafts e')[g]? = some draft') :
    draft'.includes = draft.includes ∧
      draft'.definitions.map (·.1) = draft.definitions.map (·.1) ∧ draft'.root = draft.root := by
  rcases site.getElem?_drafts e e' hdraft hdraft' with ⟨-, rfl⟩ | ⟨-, rfl, rfl⟩
  · exact ⟨rfl, rfl, rfl⟩
  · exact ⟨rfl, site.names_definitions e e', rfl⟩

theorem lookup_defined {g : Nat} {draft draft' : Draft} (hdraft : (site.drafts e)[g]? = some draft)
    (hdraft' : (site.drafts e')[g]? = some draft') {name : String} (hname : draft.Defines name) :
    Option.Rel (site.Counterpart e e' lib lib') (lib.lookup g name) (lib'.lookup g name) := by
  obtain ⟨⟨first, body⟩, hmem, rfl⟩ := List.mem_map.1 hname
  obtain ⟨id, hid, himplements⟩ := hlib.implements hdraft hmem
  have hsame (hmem' : (first, body) ∈ draft'.definitions) :
      Option.Rel (site.Counterpart e e' lib lib') (lib.lookup g first) (lib'.lookup g first) := by
    obtain ⟨id', hid', himplements'⟩ := hlib'.implements hdraft' hmem'
    rw [hid, hid']
    exact .some (.same himplements himplements')
  rcases site.getElem?_drafts e e' hdraft hdraft' with ⟨-, rfl⟩ | ⟨rfl, rfl, rfl⟩
  · exact hsame hmem
  rcases List.mem_append.1 hmem with hfront | hback
  · exact hsame (List.mem_append_left _ hfront)
  rcases List.mem_cons.1 hback with heq | hback
  · cases heq
    have hmem' : (site.owner, site.context.fill e') ∈ (site.draft e').definitions :=
      List.mem_append_right _ List.mem_cons_self
    obtain ⟨id', hid', himplements'⟩ := hlib'.implements hdraft' hmem'
    rw [hid, hid']
    refine .some (.changed site.context himplements himplements' ?_)
    rw [rule?, hid', Option.bind_some]
  · exact hsame (List.mem_append_right _ (List.mem_cons_of_mem _ hback))

theorem grammar?_eq_none {g : Nat} (hg : lib.grammar? g = none) : lib'.grammar? g = none := by
  cases hg' : lib'.grammar? g with
  | none => rfl
  | some grammar' =>
      obtain ⟨draft', draft, grammar, -, -, -, hrealizes⟩ := exists_realizes hlib' hlib hg'
      rw [hrealizes.found] at hg
      cases hg

/-- Every name stands for counterparts. -/
theorem lookup_counterparts (g : Nat) (name : String) :
    Option.Rel (site.Counterpart e e' lib lib') (lib.lookup g name) (lib'.lookup g name) := by
  induction g using Nat.strongRecOn with
  | ind g ih =>
      cases hg : lib.grammar? g with
      | none =>
          have hg' := grammar?_eq_none hlib hlib' hg
          rw [Library.lookup, Library.lookup, hg, hg']
          exact .none
      | some grammar =>
          obtain ⟨draft, draft', grammar', hdraft, hdraft', hrealizes, hrealizes'⟩ :=
            exists_realizes hlib hlib' hg
          by_cases hname : draft.Defines name
          · exact lookup_defined hlib hlib' hdraft hdraft' hname
          · obtain ⟨hincludes, hnames, -⟩ := interface_eq hdraft hdraft'
            have hname' : ¬ draft'.Defines name := by
              unfold Draft.Defines
              rw [hnames]
              exact hname
            rw [hrealizes.lookup_of_not_defines hname, hrealizes'.lookup_of_not_defines hname',
              hincludes]
            refine Library.findSome?_rel fun inner _ => ?_
            split
            · next hlt => exact ih inner hlt
            · exact .none

theorem rule?_counterparts :
    Option.Rel (site.Counterpart e e' lib lib') (site.rule? lib) (site.rule? lib') := by
  obtain ⟨i, x, hrule, himplements⟩ := exists_rule?_named hlib
  obtain ⟨i', x', hrule', himplements'⟩ := exists_rule?_named hlib'
  rw [hrule, hrule']
  refine .some (.changed .hole himplements himplements' ?_)
  rw [hrule']
  rfl

theorem refers_counterparts (g : Nat) (kind : Kind RuleRef) :
    Option.Rel (site.Counterpart e e' lib lib') (lib.refers? g kind) (lib'.refers? g kind) := by
  cases kind with
  | ref name _ => exact lookup_counterparts hlib hlib' g name
  | inherited name _ =>
      simp only [Library.refers?]
      cases hg : lib.grammar? g with
      | none =>
          rw [grammar?_eq_none hlib hlib' hg]
          exact .none
      | some grammar =>
          obtain ⟨draft, draft', grammar', hdraft, hdraft', hrealizes, hrealizes'⟩ :=
            exists_realizes hlib hlib' hg
          obtain ⟨hincludes, -⟩ := interface_eq hdraft hdraft'
          cases hrealizes.found.symm.trans hg
          rw [hrealizes'.found, Option.bind_some, Option.bind_some, hrealizes.includes,
            hrealizes'.includes, hincludes]
          exact Library.findSome?_rel fun inner _ => lookup_counterparts hlib hlib' inner name
  | _ => exact .none

/-- Counterparts refer to counterparts, unless they are what was put in the place. -/
theorem Counterpart.cases {r r' : RuleRef} (h : site.Counterpart e e' lib lib' r r') :
    (∃ name, lib.Corresponding lib' (site.Counterpart e e' lib lib') r r' name name) ∨
      ∃ i i' name x x', r = ⟨site.grammar, i⟩ ∧ r' = ⟨site.grammar, i'⟩ ∧
        lib.Implements site.grammar site.owner i e name x ∧
        lib'.Implements site.grammar site.owner i' e' name x' ∧ site.rule? lib' = some r' := by
  cases h with
  | @same g _ _ _ _ name _ h h' =>
      exact .inl ⟨name, h.corresponding (fun hsame hsame' => .same hsame hsame')
        (refers_counterparts hlib hlib' g) h'⟩
  | @changed i i' name x x' C h h' hhole =>
      rcases corresponding_changed h h' hhole with hinside | ⟨h, h', hrule⟩
      · exact .inl ⟨name, hinside⟩
      · exact .inr ⟨i, i', name, x, x', rfl, rfl, h, h', hrule⟩

theorem exists_counterpart
    (hparts : ∀ {i i' name x x' rule}, lib.Implements site.grammar site.owner i e name x →
      lib'.Implements site.grammar site.owner i' e' name x' →
      lib.rule? ⟨site.grammar, i⟩ = some rule → ∀ j ∈ rule.kind.children,
      ∃ r', site.Counterpart e e' lib lib' ⟨site.grammar, j⟩ r')
    {r : RuleRef} (hr : lib.Knows r) : ∃ r', site.Counterpart e e' lib lib' r r' := by
  obtain ⟨g, i⟩ := r
  obtain ⟨rule, hrule⟩ := Option.isSome_iff_exists.1 hr
  obtain ⟨grammar, hg, hi⟩ := Option.bind_eq_some_iff.1 hrule
  change lib.grammar? g = some grammar at hg
  change grammar.rules[i]? = some rule at hi
  obtain ⟨draft, -, -, hdraft, -, -, -⟩ := exists_realizes hlib hlib' hg
  obtain ⟨name, body, id, hmem, hid, hcontains⟩ :=
    hlib.owned hdraft hg (Array.getElem?_eq_some_iff.1 hi).1
  clear hi hrule hr
  induction hcontains with
  | refl =>
      have hrel := lookup_counterparts hlib hlib' g name
      rw [hid] at hrel
      generalize lib'.lookup g name = found at hrel
      cases hrel with
      | some hs => exact ⟨_, hs⟩
  | @tail a j _ hstep ih =>
      obtain ⟨r', hs⟩ := ih
      obtain ⟨outer, houter, hj⟩ := hstep
      have hrule : lib.rule? ⟨g, a⟩ = some outer := by
        rw [Library.rule?, hg]
        exact houter
      rcases hs.cases hlib hlib' with ⟨_, hcorresponding⟩ | ⟨_, i', _, _, _, heq, -, h, h', -⟩
      · cases hcorresponding with
        | intro hrule₁ _ hkind _ _ _ =>
            cases hrule₁.symm.trans hrule
            exact hkind.exists_of_child hj
      · cases heq
        exact hparts h h' hrule j hj

/-- The roots of a grammar are counterparts. -/
theorem root_counterparts (g : Nat) :
    Option.Rel (site.Counterpart e e' lib lib') ((lib.grammar? g).map (·.root))
      ((lib'.grammar? g).map (·.root)) := by
  induction g using Nat.strongRecOn with
  | ind g ih =>
      cases hg : lib.grammar? g with
      | none =>
          rw [grammar?_eq_none hlib hlib' hg]
          exact .none
      | some grammar =>
          obtain ⟨draft, draft', grammar', hdraft, hdraft', hrealizes, hrealizes'⟩ :=
            exists_realizes hlib hlib' hg
          obtain ⟨hincludes, hnames, hroot⟩ := interface_eq hdraft hdraft'
          cases hrealizes.found.symm.trans hg
          rw [hrealizes'.found, Option.map_some, Option.map_some, ← hrealizes.root,
            ← hrealizes'.root]
          unfold Library.draftRoot?
          rw [hroot]
          cases draft.root with
          | some name => exact lookup_counterparts hlib hlib' g name
          | none =>
              cases hdefinitions : draft.definitions with
              | cons definition rest =>
                  rw [hdefinitions] at hnames
                  obtain ⟨⟨first, body⟩, rest', hdefinitions', hname, -⟩ :=
                    List.map_eq_cons_iff.1 hnames
                  obtain rfl : first = definition.1 := hname
                  rw [hdefinitions']
                  exact lookup_counterparts hlib hlib' g definition.1
              | nil =>
                  rw [hdefinitions] at hnames
                  rw [List.map_eq_nil_iff.1 hnames, hincludes]
                  cases hlast : draft.includes.getLast? with
                  | none => exact .none
                  | some inner =>
                      have hinner : inner ∈ grammar.includes := by
                        rw [hrealizes.includes]
                        exact List.mem_of_getLast? hlast
                      exact ih inner (hlib.built.linked.includes g grammar hg inner hinner)

theorem parseRoot_counterparts (g : Nat) (root : Option String) :
    Option.Rel (site.Counterpart e e' lib lib') (lib.parseRoot g root) (lib'.parseRoot g root) := by
  cases root with
  | none => exact root_counterparts hlib hlib' g
  | some name => exact lookup_counterparts hlib hlib' g name

end BuiltFrom

end Site

end Peg
