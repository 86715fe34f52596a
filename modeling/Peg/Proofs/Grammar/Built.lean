import Peg.Grammar.Build
import Peg.Proofs.Grammar.Layout

/-!
# Libraries that were built

A library is built by adding drafts whose inclusions were added before. Main statement:
`Library.Built.closed`, no reference in such a library leads nowhere: every rule that a rule is made
of or refers to, every definition and every root is a rule of the library. What a name stands for is
then a rule too.
-/

namespace Peg

/-- The rule that a kind of rule refers to by name. -/
def Kind.referred {τ : Type} : Kind τ → Option τ
  | ref _ target => some target
  | inherited _ target => some target
  | _ => none

def Kind.targets (r : RuleRef) (kind : Kind RuleRef) : List RuleRef :=
  kind.children.map r.sibling ++ kind.referred.toList

namespace Library

def Knows (lib : Library) (r : RuleRef) : Prop := (lib.rule? r).isSome

/-- The libraries that adding drafts leads to. -/
inductive Built : Library → Prop
  | empty : Built {}
  | add {lib later : Library} {draft : Draft} : Built lib →
      (∀ g ∈ draft.includes, g < lib.grammars.size) → lib.add draft = .ok later → Built later

/-- Every number of a rule that occurs in the library is one of a rule of the library. -/
structure Closed (lib : Library) : Prop where
  targets : ∀ r rule, lib.rule? r = some rule → ∀ t ∈ rule.kind.targets r, lib.Knows t
  defined : ∀ g grammar, lib.grammar? g = some grammar →
    ∀ entry ∈ grammar.defined, entry.2 < grammar.rules.size
  root : ∀ g grammar, lib.grammar? g = some grammar → lib.Knows grammar.root

/-! ## Names -/

theorem knows_of_grammar? {lib : Library} {g i : Nat} {grammar : Grammar}
    (hg : lib.grammar? g = some grammar) (hi : i < grammar.rules.size) : lib.Knows ⟨g, i⟩ := by
  simp [Knows, rule?, hg, hi]

theorem mem_of_lookup_eq_some {defined : List (String × Nat)} {name : String} {i : Nat}
    (h : defined.lookup name = some i) : (name, i) ∈ defined := by
  obtain ⟨front, back, rfl, -⟩ := List.lookup_eq_some_iff.1 h
  exact List.mem_append_right front (List.mem_cons_self)

theorem Closed.lookup {lib : Library} (h : lib.Closed) {g : Nat} {name : String} {r : RuleRef}
    (hr : lib.lookup g name = some r) : lib.Knows r := by
  induction g using Nat.strongRecOn with
  | ind g ih =>
      rw [Library.lookup] at hr
      split at hr
      · cases hr
      · next grammar hg =>
          split at hr
          · next i hi =>
              cases hr
              exact knows_of_grammar? hg (h.defined g grammar hg _ (mem_of_lookup_eq_some hi))
          · obtain ⟨inner, -, hinner⟩ := List.exists_of_findSome?_eq_some hr
            split at hinner
            · next hlt => exact ih inner hlt hinner
            · cases hinner

theorem Closed.lookupIncluded {lib : Library} (h : lib.Closed) {includes : List Nat}
    {name : String} {r : RuleRef} (hr : lib.lookupIncluded includes name = some r) :
    lib.Knows r := by
  obtain ⟨inner, -, hinner⟩ := List.exists_of_findSome?_eq_some hr
  exact h.lookup hinner

/-! ## Resolving references -/

/-- A rule of the library, or one of the first `size` rules of the grammar added next. -/
def Offers (lib : Library) (size : Nat) (r : RuleRef) : Prop :=
  lib.Knows r ∨ ∃ i < size, r = ⟨lib.grammars.size, i⟩

theorem Closed.lookupDraft {lib : Library} (h : lib.Closed) {draft : Draft}
    {defined : List (String × Nat)} {size : Nat} (hdefined : ∀ entry ∈ defined, entry.2 < size)
    {name : String} {r : RuleRef} (hr : lib.lookupDraft draft defined name = some r) :
    lib.Offers size r := by
  unfold Library.lookupDraft at hr
  split at hr
  · next i hi =>
      cases hr
      exact .inr ⟨i, hdefined _ (mem_of_lookup_eq_some hi), rfl⟩
  · exact .inl (h.lookupIncluded hr)

theorem Closed.rootOf {lib : Library} (h : lib.Closed) {draft : Draft}
    {defined : List (String × Nat)} {size : Nat} (hdefined : ∀ entry ∈ defined, entry.2 < size)
    {r : RuleRef} (hr : lib.rootOf draft defined = .ok r) : lib.Offers size r := by
  unfold Library.rootOf at hr
  split at hr
  · split at hr
    · next root hroot =>
        cases hr
        exact h.lookupDraft hdefined hroot
    · cases hr
  · split at hr
    · cases hr
      exact .inr ⟨_, hdefined _ List.mem_cons_self, rfl⟩
    · split at hr
      · next inner hinner =>
          cases hr
          obtain ⟨g, -, hg⟩ := Option.bind_eq_some_iff.1 hinner
          exact .inl (h.root g inner hg)
      · cases hr

end Library

section Resolve

variable {ref inherited : String → String → Except GrammarError RuleRef}

theorem Kind.resolve_eq_ok {kind : Kind String} {kind' : Kind RuleRef}
    (h : kind.resolve ref inherited = .ok kind') :
    kind'.children = kind.children ∧
      ∀ t ∈ kind'.referred, ∃ name rule, ref name rule = .ok t ∨ inherited name rule = .ok t := by
  cases kind with
  | ref name rule =>
      simp only [Kind.resolve] at h
      cases htarget : ref name rule with
      | error e => simp [htarget, Except.map] at h
      | ok target =>
          simp only [htarget, Except.map, Except.ok.injEq] at h
          subst h
          refine ⟨rfl, fun t ht => ⟨name, rule, .inl ?_⟩⟩
          cases ht
          exact htarget
  | inherited name rule =>
      simp only [Kind.resolve] at h
      cases htarget : inherited name rule with
      | error e => simp [htarget, Except.map] at h
      | ok target =>
          simp only [htarget, Except.map, Except.ok.injEq] at h
          subst h
          refine ⟨rfl, fun t ht => ⟨name, rule, .inr ?_⟩⟩
          cases ht
          exact htarget
  | _ =>
      cases h
      exact ⟨rfl, fun t ht => by cases ht⟩

theorem Rule.resolve_kind {rule : Rule String} {rule' : Rule RuleRef}
    (h : rule.resolve ref inherited = .ok rule') :
    rule.kind.resolve ref inherited = .ok rule'.kind := by
  unfold Rule.resolve at h
  cases hkind : rule.kind.resolve ref inherited with
  | error e => simp [hkind, Except.map] at h
  | ok kind =>
      simp only [hkind, Except.map, Except.ok.injEq] at h
      subst h
      rfl

end Resolve

theorem getElem?_of_mapM_eq_ok {ε α β : Type} {f : α → Except ε β} {xs : List α} {ys : List β}
    (h : xs.mapM f = .ok ys) :
    ys.length = xs.length ∧
      ∀ (i : Nat) (y : β), ys[i]? = some y → ∃ x, xs[i]? = some x ∧ f x = .ok y := by
  induction xs generalizing ys with
  | nil =>
      cases h
      exact ⟨rfl, fun i y hy => by simp at hy⟩
  | cons x xs ih =>
      rw [List.mapM_cons] at h
      obtain ⟨y, hy, hrest⟩ := exists_of_bind_eq_ok h
      obtain ⟨tail, htail, hok⟩ := exists_of_bind_eq_ok hrest
      cases hok
      obtain ⟨hlen, hget⟩ := ih htail
      refine ⟨by simp [hlen], fun i z hz => ?_⟩
      cases i with
      | zero =>
          cases hz
          exact ⟨x, rfl, hy⟩
      | succ i => exact hget i z hz

theorem getElem?_of_array_mapM_eq_ok {ε α β : Type} {f : α → Except ε β} {xs : Array α}
    {ys : Array β} (h : xs.mapM f = .ok ys) :
    ys.size = xs.size ∧
      ∀ (i : Nat) (y : β), ys[i]? = some y → ∃ x, xs[i]? = some x ∧ f x = .ok y := by
  rw [Array.mapM_eq_mapM_toList] at h
  cases hlist : xs.toList.mapM f with
  | error e =>
      rw [hlist] at h
      cases h
  | ok list =>
      rw [hlist] at h
      cases h
      obtain ⟨hlen, hget⟩ := getElem?_of_mapM_eq_ok hlist
      refine ⟨by simpa using hlen, fun i y hy => ?_⟩
      rw [List.getElem?_toArray] at hy
      obtain ⟨x, hx, hxy⟩ := hget i y hy
      rw [Array.getElem?_toList] at hx
      exact ⟨x, hx, hxy⟩

namespace Library

/-! ## Adding a grammar -/

theorem Closed.build {lib : Library} (h : lib.Closed) {draft : Draft} {grammar : Grammar}
    (hbuild : lib.build draft = .ok grammar) :
    (∀ (i : Nat) (rule : Rule RuleRef), grammar.rules[i]? = some rule →
      ∀ t ∈ rule.kind.targets ⟨lib.grammars.size, i⟩, lib.Offers grammar.rules.size t) ∧
    (∀ entry ∈ grammar.defined, entry.2 < grammar.rules.size) ∧
    lib.Offers grammar.rules.size grammar.root := by
  unfold Library.build at hbuild
  obtain ⟨⟨arena, defined⟩, hlower, hrest⟩ := exists_of_bind_eq_ok hbuild
  obtain ⟨rules, hrules, hrest⟩ := exists_of_bind_eq_ok hrest
  obtain ⟨root, hroot, hok⟩ := exists_of_bind_eq_ok hrest
  cases hok
  have hholds := lowerDefinitions_holds Arena.holds_empty hlower
  have hdefined (entry : String × Nat) (hentry : entry ∈ defined) : entry.2 < arena.size :=
    hholds.row.lt_last (List.mem_map_of_mem hentry)
  obtain ⟨hsize, hget⟩ := getElem?_of_array_mapM_eq_ok hrules
  refine ⟨fun i rule hi t ht => ?_, fun entry hentry => ?_, ?_⟩
  · obtain ⟨source, hsource, hresolve⟩ := hget i rule hi
    obtain ⟨hchildren, hreferred⟩ := Kind.resolve_eq_ok (Rule.resolve_kind hresolve)
    have hi' : i < arena.size := (Array.getElem?_eq_some_iff.1 hsource).1
    rcases List.mem_append.1 ht with ht | ht
    · obtain ⟨j, hj, rfl⟩ := List.mem_map.1 ht
      rw [hchildren] at hj
      have hlt := hholds.laid.lt hsource hj
      exact .inr ⟨j, by simp only; omega, rfl⟩
    · obtain ⟨name, rule', htarget | htarget⟩ := hreferred t (Option.mem_toList.1 ht)
      · split at htarget
        · next target hlookup =>
            cases htarget
            exact h.lookupDraft (by rw [hsize]; exact hdefined) hlookup
        · cases htarget
      · split at htarget
        · next target hlookup =>
            cases htarget
            exact .inl (h.lookupIncluded hlookup)
        · cases htarget
  · rw [hsize]
    exact hdefined entry hentry
  · exact h.rootOf (by rw [hsize]; exact hdefined) hroot

theorem grammar?_push {lib : Library} {grammar : Grammar} {g : Nat} :
    (⟨lib.grammars.push grammar⟩ : Library).grammar? g =
      if g = lib.grammars.size then some grammar else lib.grammar? g := by
  simp only [grammar?, Array.getElem?_push]

theorem rule?_push_of_eq_some {lib : Library} {grammar : Grammar} {r : RuleRef}
    {rule : Rule RuleRef} (h : lib.rule? r = some rule) :
    (⟨lib.grammars.push grammar⟩ : Library).rule? r = some rule := by
  obtain ⟨g, hg, hrule⟩ := Option.bind_eq_some_iff.1 h
  have hlt : r.grammar < lib.grammars.size := (Array.getElem?_eq_some_iff.1 hg).1
  have hne : r.grammar ≠ lib.grammars.size := by omega
  unfold rule?
  rw [grammar?_push, if_neg hne, hg]
  exact hrule

theorem Offers.knows_push {lib : Library} {grammar : Grammar} {r : RuleRef}
    (h : lib.Offers grammar.rules.size r) :
    (⟨lib.grammars.push grammar⟩ : Library).Knows r := by
  rcases h with h | ⟨i, hi, rfl⟩
  · obtain ⟨rule, hrule⟩ := Option.isSome_iff_exists.1 h
    unfold Knows
    rw [rule?_push_of_eq_some hrule]
    rfl
  · have hg : (⟨lib.grammars.push grammar⟩ : Library).grammar? lib.grammars.size =
        some grammar := by
      rw [grammar?_push, if_pos rfl]
    exact knows_of_grammar? hg hi

theorem Closed.push {lib : Library} (h : lib.Closed) {draft : Draft} {grammar : Grammar}
    (hbuild : lib.build draft = .ok grammar) :
    (⟨lib.grammars.push grammar⟩ : Library).Closed := by
  obtain ⟨htargets, hdefined, hroot⟩ := h.build hbuild
  constructor
  · intro r rule hrule t ht
    by_cases hr : r.grammar = lib.grammars.size
    · unfold rule? at hrule
      rw [grammar?_push, if_pos hr] at hrule
      obtain ⟨g, i⟩ := r
      cases hr
      exact (htargets i rule hrule t ht).knows_push
    · unfold rule? at hrule
      rw [grammar?_push, if_neg hr] at hrule
      exact Offers.knows_push (.inl (h.targets r rule hrule t ht))
  · intro g grammar' hg entry hentry
    rw [grammar?_push] at hg
    split at hg
    · cases hg
      exact hdefined entry hentry
    · exact h.defined g grammar' hg entry hentry
  · intro g grammar' hg
    rw [grammar?_push] at hg
    split at hg
    · cases hg
      exact hroot.knows_push
    · exact Offers.knows_push (.inl (h.root g grammar' hg))

theorem closed_empty : Closed {} where
  targets r rule h := by simp [rule?, grammar?] at h
  defined g grammar h := by simp [grammar?] at h
  root g grammar h := by simp [grammar?] at h

theorem exists_build_of_add {lib later : Library} {draft : Draft} (hadd : lib.add draft = .ok later) :
    ∃ grammar, lib.build draft = .ok grammar ∧ later = ⟨lib.grammars.push grammar⟩ := by
  unfold Library.add at hadd
  cases hbuild : lib.build draft with
  | error e => simp [hbuild, Except.map] at hadd
  | ok grammar =>
      simp only [hbuild, Except.map, Except.ok.injEq] at hadd
      exact ⟨grammar, rfl, hadd.symm⟩

/-- No reference in a library that was built leads nowhere. -/
theorem Built.closed {lib : Library} (h : lib.Built) : lib.Closed := by
  induction h with
  | empty => exact closed_empty
  | @add lib later draft _ _ hadd ih =>
      obtain ⟨grammar, hbuild, rfl⟩ := exists_build_of_add hadd
      exact ih.push hbuild

theorem Built.single {draft : Draft} (hincludes : draft.includes = [])
    (hadd : (Library.add {} draft).toOption.isSome = true) :
    (((Library.add {} draft).toOption).getD {}).Built := by
  cases hlib : Library.add {} draft with
  | error e =>
      rw [hlib] at hadd
      cases hadd
  | ok lib =>
      refine .add .empty ?_ hlib
      rw [hincludes]
      exact List.forall_mem_nil _

end Library

/-! ## A library of one grammar -/

def brackets : Draft where
  name := "Brackets"
  definitions :=
    [("brackets", .zeroOrMore (.seq [.literal "(", .ref "brackets", .literal ")"]))]

def bracketLibrary : Library := ((Library.add {} brackets).toOption).getD {}

theorem bracketLibrary_built : bracketLibrary.Built := .single rfl (by decide +kernel)

theorem bracketLibrary_knows : bracketLibrary.Knows ⟨0, 4⟩ := by
  unfold Library.Knows
  decide +kernel

end Peg
