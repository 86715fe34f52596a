import Peg.Proofs.Grammar.Scope
import Peg.Proofs.Grammar.Target

/-!
# The order in which names are looked up

A grammar looks a name up in itself, then in its inclusions from the last one to the first, each of
them searched in the same way before the next one. `Library.searchOrder` lists the grammars in this
order. Main statements: `Library.lookup_eq_findSome?` and `Library.lookupIncluded_eq_findSome?`, a
name stands for the rule of the first grammar that defines it.
-/

namespace Peg.Library

def own? (lib : Library) (name : String) (k : Nat) : Option RuleRef :=
  ((lib.grammar? k).bind fun grammar => grammar.defined.lookup name).map (RuleRef.mk k)

/-- The grammar and the grammars that it includes, directly or through others, as they are searched:
depth-first, the last inclusion first. A grammar comes up as often as there are ways to it. -/
def searchOrder (lib : Library) (g : Nat) : List Nat :=
  match lib.grammar? g with
  | none => [g]
  | some grammar =>
    g :: grammar.includes.reverse.flatMap fun inner =>
      if inner < g then lib.searchOrder inner else []
termination_by g

variable {lib : Library} {g k : Nat} {grammar : Grammar} {name : String} {r : RuleRef}

/-- The search goes into all inclusions, since these were added before. -/
theorem Linked.searchOrder_eq (h : lib.Linked) (hg : lib.grammar? g = some grammar) :
    lib.searchOrder g = g :: grammar.includes.reverse.flatMap lib.searchOrder := by
  rw [searchOrder, hg]
  simp only [List.cons.injEq, true_and]
  apply List.flatMap_congr
  intro inner hinner
  exact if_pos (h.includes g grammar hg inner (List.mem_reverse.1 hinner))

theorem mem_searchOrder_iff : k ∈ lib.searchOrder g ↔ k ∈ lib.inclusions g := by
  induction g using Nat.strongRecOn with
  | ind g ih =>
      rw [searchOrder, mem_inclusions_iff]
      cases hg : lib.grammar? g with
      | none => simp
      | some grammar =>
          simp only [List.mem_cons, List.mem_flatMap, List.mem_reverse, Option.some.injEq,
            exists_eq_left']
          refine or_congr_right (exists_congr fun inner => and_congr_right fun _ => ?_)
          by_cases hlt : inner < g
          · rw [if_pos hlt, ih inner hlt, and_iff_right hlt]
          · simp [hlt]

/-! ## The first grammar that defines a name -/

theorem findSome?_flatMap {α β γ : Type} (xs : List α) (f : α → List β) (p : β → Option γ) :
    (xs.flatMap f).findSome? p = xs.findSome? fun x => (f x).findSome? p := by
  induction xs with
  | nil => rfl
  | cons x xs ih =>
      rw [List.flatMap_cons, List.findSome?_append, ih, List.findSome?_cons]
      cases (f x).findSome? p <;> rfl

theorem lookup_eq_findSome? (lib : Library) (g : Nat) (name : String) :
    lib.lookup g name = (lib.searchOrder g).findSome? (lib.own? name) := by
  induction g using Nat.strongRecOn with
  | ind g ih =>
      rw [lookup, searchOrder]
      cases hg : lib.grammar? g with
      | none => simp [own?, hg]
      | some grammar =>
          have hown : lib.own? name g = (grammar.defined.lookup name).map (RuleRef.mk g) := by
            simp [own?, hg]
          simp only [List.findSome?_cons, hown, findSome?_flatMap]
          cases grammar.defined.lookup name with
          | some rule => rfl
          | none =>
              simp only [Option.map_none]
              apply findSome?_congr
              intro inner _
              by_cases hlt : inner < g
              · rw [if_pos hlt, if_pos hlt, ih inner hlt]
              · rw [if_neg hlt, if_neg hlt]
                rfl

theorem lookupIncluded_eq_findSome? (lib : Library) (includes : List Nat) (name : String) :
    lib.lookupIncluded includes name =
      (includes.reverse.flatMap lib.searchOrder).findSome? (lib.own? name) := by
  rw [findSome?_flatMap]
  exact findSome?_congr fun inner _ => lookup_eq_findSome? lib inner name

theorem own?_of_lookup (h : lib.lookup g name = some r) :
    r.grammar ∈ lib.searchOrder g ∧ lib.own? name r.grammar = some r := by
  rw [lookup_eq_findSome?] at h
  obtain ⟨k, hk, hown⟩ := List.exists_of_findSome?_eq_some h
  obtain ⟨rule, -, rfl⟩ := Option.map_eq_some_iff.1 hown
  exact ⟨hk, hown⟩

theorem isSome_own?_iff :
    (lib.own? name k).isSome = true ↔ ((lib.grammar? k).any (·.hasRule name)) = true := by
  cases hg : lib.grammar? k <;> simp [own?, Grammar.hasRule, hg]

theorem isSome_lookup_iff :
    (lib.lookup g name).isSome = true ↔
      ∃ k ∈ lib.inclusions g, ((lib.grammar? k).any (·.hasRule name)) = true := by
  rw [lookup_eq_findSome?, List.findSome?_isSome_iff]
  refine exists_congr fun k => ?_
  rw [mem_searchOrder_iff, isSome_own?_iff]

end Peg.Library
