import Mathlib.Data.Finset.Union
import Peg.Proofs.Grammar.Built

/-!
# The scope of a grammar

The rules of a grammar and of the grammars it includes, directly or through others, are its scope.
In a library that was built the rules in it refer to no others (`Library.Built.targets_mem_scope`),
so a run that begins with a rule in the scope of a grammar stays there.
-/

namespace Peg.Library

/-- The grammar and the grammars it includes, directly or through others. -/
def inclusions (lib : Library) (g : Nat) : Finset Nat :=
  match lib.grammar? g with
  | none => {g}
  | some grammar =>
    insert g (grammar.includes.toFinset.biUnion fun inner =>
      if inner < g then lib.inclusions inner else ∅)
termination_by g

def scope (lib : Library) (g : Nat) : Finset RuleRef :=
  (lib.inclusions g).biUnion fun k =>
    (Finset.range (((lib.grammar? k).map (·.rules.size)).getD 0)).image (RuleRef.mk k)

variable {lib : Library} {g k : Nat}

theorem mem_inclusions_iff :
    k ∈ lib.inclusions g ↔ k = g ∨ ∃ grammar, lib.grammar? g = some grammar ∧
      ∃ inner ∈ grammar.includes, inner < g ∧ k ∈ lib.inclusions inner := by
  rw [inclusions]
  cases hg : lib.grammar? g with
  | none => simp
  | some grammar =>
      simp only [Finset.mem_insert, Finset.mem_biUnion, List.mem_toFinset, Option.some.injEq,
        exists_eq_left']
      refine or_congr_right (exists_congr fun inner => and_congr_right fun _ => ?_)
      split
      · next hlt => simp [hlt]
      · next hle => simp [hle]

theorem mem_inclusions_self : g ∈ lib.inclusions g := mem_inclusions_iff.2 (.inl rfl)

theorem mem_inclusions_of_includes {grammar : Grammar} {inner : Nat}
    (hg : lib.grammar? g = some grammar) (hinner : inner ∈ grammar.includes) (hlt : inner < g)
    (hk : k ∈ lib.inclusions inner) : k ∈ lib.inclusions g :=
  mem_inclusions_iff.2 (.inr ⟨grammar, hg, inner, hinner, hlt, hk⟩)

theorem inclusions_trans {j : Nat} (hk : k ∈ lib.inclusions g) (hj : j ∈ lib.inclusions k) :
    j ∈ lib.inclusions g := by
  induction g using Nat.strongRecOn with
  | ind g ih =>
      rcases mem_inclusions_iff.1 hk with rfl | ⟨grammar, hg, inner, hinner, hlt, hk'⟩
      · exact hj
      · exact mem_inclusions_of_includes hg hinner hlt (ih inner hlt hk')

theorem mem_scope_iff {r : RuleRef} :
    r ∈ lib.scope g ↔ r.grammar ∈ lib.inclusions g ∧ lib.Knows r := by
  obtain ⟨k, i⟩ := r
  have hknows : lib.Knows ⟨k, i⟩ ↔ i < ((lib.grammar? k).map (·.rules.size)).getD 0 := by
    unfold Knows rule?
    cases lib.grammar? k <;> simp
  simp only [scope, Finset.mem_biUnion, Finset.mem_image, Finset.mem_range, RuleRef.mk.injEq,
    hknows]
  constructor
  · rintro ⟨_, hk, _, hi, rfl, rfl⟩
    exact ⟨hk, hi⟩
  · rintro ⟨hk, hi⟩
    exact ⟨k, hk, i, hi, rfl, rfl⟩

/-! ## Names -/

theorem lookup_mem_inclusions {name : String} {r : RuleRef} (h : lib.lookup g name = some r) :
    r.grammar ∈ lib.inclusions g := by
  induction g using Nat.strongRecOn with
  | ind g ih =>
      rw [lookup] at h
      split at h
      · cases h
      · next grammar hg =>
          split at h
          · cases h
            exact mem_inclusions_self
          · obtain ⟨inner, hinner, hfound⟩ := List.exists_of_findSome?_eq_some h
            split at hfound
            · next hlt =>
                exact mem_inclusions_of_includes hg (List.mem_reverse.1 hinner) hlt
                  (ih inner hlt hfound)
            · cases hfound

/-! ## Adding a grammar -/

/-- The grammar that a draft becomes, or one that it includes. -/
def Reaches (lib : Library) (draft : Draft) (k : Nat) : Prop :=
  k = lib.grammars.size ∨ ∃ inner ∈ draft.includes, k ∈ lib.inclusions inner

/-- References only reach into grammars that are included. -/
def Scoped (lib : Library) : Prop :=
  ∀ r rule, lib.rule? r = some rule → ∀ t ∈ rule.kind.targets r,
    t.grammar ∈ lib.inclusions r.grammar

variable {draft : Draft} {grammar : Grammar}

theorem reaches_of_lookupIncluded {name : String} {r : RuleRef}
    (h : lib.lookupIncluded draft.includes name = some r) : lib.Reaches draft r.grammar := by
  obtain ⟨inner, hinner, hfound⟩ := List.exists_of_findSome?_eq_some h
  exact .inr ⟨inner, List.mem_reverse.1 hinner, lookup_mem_inclusions hfound⟩

theorem reaches_of_lookupDraft {defined : List (String × Nat)} {name : String} {r : RuleRef}
    (h : lib.lookupDraft draft defined name = some r) : lib.Reaches draft r.grammar := by
  unfold lookupDraft at h
  split at h
  · cases h
    exact .inl rfl
  · exact reaches_of_lookupIncluded h

theorem reaches_of_build (hbuild : lib.build draft = .ok grammar) :
    grammar.includes = draft.includes ∧
    ∀ (i : Nat) (rule : Rule RuleRef), grammar.rules[i]? = some rule →
      ∀ t ∈ rule.kind.targets ⟨lib.grammars.size, i⟩, lib.Reaches draft t.grammar := by
  unfold Library.build at hbuild
  obtain ⟨⟨arena, defined⟩, -, hrest⟩ := exists_of_bind_eq_ok hbuild
  obtain ⟨rules, hrules, hrest⟩ := exists_of_bind_eq_ok hrest
  obtain ⟨root, -, hok⟩ := exists_of_bind_eq_ok hrest
  cases hok
  obtain ⟨-, hget⟩ := getElem?_of_array_mapM_eq_ok hrules
  refine ⟨rfl, fun i rule hi t ht => ?_⟩
  obtain ⟨source, -, hresolve⟩ := hget i rule hi
  obtain ⟨-, hreferred⟩ := Kind.resolve_eq_ok (Rule.resolve_kind hresolve)
  rcases List.mem_append.1 ht with ht | ht
  · obtain ⟨j, -, rfl⟩ := List.mem_map.1 ht
    exact .inl rfl
  · obtain ⟨name, rule', htarget | htarget⟩ := hreferred t (Option.mem_toList.1 ht)
    · split at htarget
      · next target hlookup =>
          cases htarget
          exact reaches_of_lookupDraft hlookup
      · cases htarget
    · split at htarget
      · next target hlookup =>
          cases htarget
          exact reaches_of_lookupIncluded hlookup
      · cases htarget

theorem mem_inclusions_push (hk : k ∈ lib.inclusions g) (hg : g < lib.grammars.size) :
    k ∈ (⟨lib.grammars.push grammar⟩ : Library).inclusions g := by
  induction g using Nat.strongRecOn with
  | ind g ih =>
      rcases mem_inclusions_iff.1 hk with rfl | ⟨outer, houter, inner, hinner, hlt, hk'⟩
      · exact mem_inclusions_self
      · have houter' : (⟨lib.grammars.push grammar⟩ : Library).grammar? g = some outer := by
          rw [grammar?_push, if_neg (by omega)]
          exact houter
        exact mem_inclusions_of_includes houter' hinner hlt (ih inner hlt hk' (by omega))

theorem Reaches.mem_inclusions_push (h : lib.Reaches draft k)
    (hdraft : ∀ inner ∈ draft.includes, inner < lib.grammars.size)
    (hincludes : grammar.includes = draft.includes) :
    k ∈ (⟨lib.grammars.push grammar⟩ : Library).inclusions lib.grammars.size := by
  rcases h with rfl | ⟨inner, hinner, hk⟩
  · exact mem_inclusions_self
  · have hlt := hdraft inner hinner
    have hgrammar : (⟨lib.grammars.push grammar⟩ : Library).grammar? lib.grammars.size =
        some grammar := by rw [grammar?_push, if_pos rfl]
    exact mem_inclusions_of_includes hgrammar (hincludes ▸ hinner) hlt
      (Library.mem_inclusions_push hk hlt)

theorem Scoped.push (h : lib.Scoped) (hdraft : ∀ inner ∈ draft.includes, inner < lib.grammars.size)
    (hbuild : lib.build draft = .ok grammar) :
    (⟨lib.grammars.push grammar⟩ : Library).Scoped := by
  obtain ⟨hincludes, htargets⟩ := reaches_of_build hbuild
  intro r rule hrule t ht
  by_cases hr : r.grammar = lib.grammars.size
  · unfold rule? at hrule
    rw [grammar?_push, if_pos hr] at hrule
    obtain ⟨g, i⟩ := r
    cases hr
    exact (htargets i rule hrule t ht).mem_inclusions_push hdraft hincludes
  · unfold rule? at hrule
    rw [grammar?_push, if_neg hr] at hrule
    obtain ⟨old, hold, -⟩ := Option.bind_eq_some_iff.1 hrule
    have hlt : r.grammar < lib.grammars.size := (Array.getElem?_eq_some_iff.1 hold).1
    exact Library.mem_inclusions_push (h r rule hrule t ht) hlt

theorem Built.scoped (h : lib.Built) : lib.Scoped := by
  induction h with
  | empty =>
      intro r rule hrule
      simp [rule?, grammar?] at hrule
  | @add lib later draft _ hdraft hadd ih =>
      obtain ⟨grammar, hbuild, rfl⟩ := exists_build_of_add hadd
      exact ih.push hdraft hbuild

/-! ## Rules in scope -/

/-- The rules in the scope of a grammar refer to no others. -/
theorem Built.targets_mem_scope (h : lib.Built) {r : RuleRef} (hr : r ∈ lib.scope g)
    {rule : Rule RuleRef} (hrule : lib.rule? r = some rule) :
    ∀ t ∈ rule.kind.targets r, t ∈ lib.scope g := by
  intro t ht
  exact mem_scope_iff.2 ⟨inclusions_trans (mem_scope_iff.1 hr).1 (h.scoped r rule hrule t ht),
    h.closed.targets r rule hrule t ht⟩

end Peg.Library
