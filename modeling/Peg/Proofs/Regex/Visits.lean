import Peg.Proofs.Regex.Outcomes
import Peg.Proofs.Regex.Reached

/-!
# The order of visits

A visit lists the states that it reaches in the order in which the ways are tried. The first one of them
from which an end is found leads to the end that is found from the stack, although no state is listed
twice: a state that is met again has been tried before. Main statement: `Automaton.findSome?_reach`.
-/

namespace Peg.Automaton

open Regex (Point)
open Relation (ReflTransGen TransGen)

variable {a : Automaton} {holds : Look → Bool} {fuel n m : Nat} {seen seen' seen'' : Std.TreeSet Nat}
  {stack found found' found'' states : List Nat} {p : Point} {r r' : Option Point}
  {value : Nat → Option Point}

/-- All ways from a state at a point come to an end. -/
def Halts (a : Automaton) (n : Nat) (p : Point) : Prop := ∃ r, a.Runs n p r

open Classical in
/-- What is found from a state at a point, none if not all ways come to an end. -/
noncomputable def outcome (a : Automaton) (p : Point) (n : Nat) : Option Point :=
  if h : a.Halts n p then h.choose else none

theorem Runs.outcome_eq (h : a.Runs n p r) : a.outcome p n = r := by
  have hhalts : a.Halts n p := ⟨r, h⟩
  unfold outcome
  rw [dif_pos hhalts]
  exact hhalts.choose_spec.unique h

theorem Halts.runs (h : a.Halts n p) : a.Runs n p (a.outcome p n) := by
  obtain ⟨r, hr⟩ := h
  exact hr.outcome_eq ▸ hr

theorem Halts.of_leads (h : a.Halts n p) (hleads : a.Leads (holdsAt p) n m) : a.Halts m p := by
  obtain ⟨r, hr⟩ := h
  cases hr with
  | look hn hr =>
      simp only [Leads, hn] at hleads
      exact hleads.2 ▸ ⟨_, hr hleads.1⟩
  | split hn hfirst hsecond =>
      simp only [Leads, hn] at hleads
      obtain rfl | rfl := hleads
      · exact ⟨_, hfirst⟩
      · exact ⟨_, hsecond⟩
  | _ hn => simp [Leads, hn] at hleads

theorem Halts.of_reflTransGen (h : a.Halts n p)
    (hpath : ReflTransGen (a.Leads (holdsAt p)) n m) : a.Halts m p := by
  induction hpath with
  | refl => exact h
  | tail _ hstep ih => exact ih.of_leads hstep

theorem Runs.not_transGen (h : a.Runs n p r) : ¬ TransGen (a.Leads (holdsAt p)) n n := by
  induction h with
  | look hn _ ih =>
      intro hcycle
      obtain ⟨m, hstep, hback⟩ := TransGen.head'_iff.1 hcycle
      have hleads := hstep
      simp only [Leads, hn] at hleads
      obtain ⟨hholds, rfl⟩ := hleads
      exact ih hholds (.tail' hback hstep)
  | split hn _ _ ih ih' =>
      intro hcycle
      obtain ⟨m, hstep, hback⟩ := TransGen.head'_iff.1 hcycle
      have hleads := hstep
      simp only [Leads, hn] at hleads
      obtain rfl | rfl := hleads
      · exact ih (.tail' hback hstep)
      · exact ih' (.tail' hback hstep)
  | _ hn =>
      intro hcycle
      obtain ⟨m, hstep, _⟩ := TransGen.head'_iff.1 hcycle
      simp [Leads, hn] at hstep

/-! ## What a visit finds first -/

/-- The first value of the states found, the latest of which stands first. -/
def best (value : Nat → Option Point) (found : List Nat) : Option Point :=
  found.reverse.findSome? value

theorem best_cons : best value (n :: found) = (best value found).or (value n) := by
  simp [best, List.findSome?_append]

/-- What was found is followed by an outcome. A state that is visited in between can have an outcome
only if there is one in the end. -/
structure Finding (a : Automaton) (p : Point) (value : Nat → Option Point)
    (seen : Std.TreeSet Nat) (found : List Nat) (r : Option Point) (seen' : Std.TreeSet Nat)
    (found' : List Nat) : Prop where
  best_eq : best value found' = (best value found).or r
  tried : ∀ m, seen'.contains m = true → seen.contains m = true ∨
    ((a.outcome p m).isSome = true → (best value found').isSome = true)

theorem Finding.refl : Finding a p value seen found none seen found where
  best_eq := Option.or_none.symm
  tried _ := .inl

theorem Finding.trans (h : Finding a p value seen found r seen' found')
    (h' : Finding a p value seen' found' r' seen'' found'') :
    Finding a p value seen found (r.or r') seen'' found'' where
  best_eq := by rw [h'.best_eq, h.best_eq, Option.or_assoc]
  tried m hm := by
    obtain hm | hm := h'.tried m hm
    · refine (h.tried m hm).imp_right fun htried houtcome => ?_
      rw [h'.best_eq, Option.isSome_or, htried houtcome, Bool.true_or]
    · exact .inr hm

/-- The states that can be reached from the given one and have been visited have no outcome, unless
there is one already. -/
def Tried (a : Automaton) (p : Point) (value : Nat → Option Point) (seen : Std.TreeSet Nat)
    (found : List Nat) (n : Nat) : Prop :=
  ∀ m, ReflTransGen (a.Leads (holdsAt p)) n m → seen.contains m = true →
    (a.outcome p m).isSome = true → (best value found).isSome = true

theorem Tried.after (h : Tried a p value seen found n)
    (hfinding : Finding a p value seen found r seen' found') : Tried a p value seen' found' n := by
  intro m hpath hm houtcome
  obtain hm | htried := hfinding.tried m hm
  · rw [hfinding.best_eq, Option.isSome_or, h m hpath hm houtcome, Bool.true_or]
  · exact htried houtcome

/-- A visit comes from the stack with the states on top to the rest of it, and in between finds an
outcome. -/
def Comes (a : Automaton) (holds : Look → Bool) (p : Point) (value : Nat → Option Point)
    (fuel : Nat) (seen : Std.TreeSet Nat) (top stack found : List Nat) (r : Option Point) : Prop :=
  ∃ fuel' seen' found',
    a.visit holds fuel seen (top ++ stack) found = a.visit holds fuel' seen' stack found' ∧
    stack.length + 2 * (a.unseen seen').card ≤ fuel' ∧ Finding a p value seen found r seen' found'

/-- From a state on top of the stack a visit finds an outcome. -/
def Explores (a : Automaton) (holds : Look → Bool) (p : Point) (value : Nat → Option Point)
    (n : Nat) (r : Option Point) : Prop :=
  ∀ (fuel : Nat) (seen : Std.TreeSet Nat) (stack found : List Nat),
    (n :: stack).length + 2 * (a.unseen seen).card ≤ fuel → Tried a p value seen found n →
    Comes a holds p value fuel seen [n] stack found r

/-- A state has the value of its outcome, or it is a condition behind which the visit goes on. -/
def Values (a : Automaton) (holds : Look → Bool) (p : Point) (value : Nat → Option Point) : Prop :=
  ∀ n, value n = a.outcome p n ∨
    value n = none ∧ ∃ condition next, a.state n = .look condition next ∧ holds condition = true

theorem findSome?_cons_or (f : Nat → Option Point) (n : Nat) (states : List Nat) :
    (n :: states).findSome? f = (f n).or (states.findSome? f) := by
  rw [List.findSome?_cons]
  cases f n <;> rfl

theorem Comes.nil (hfuel : stack.length + 2 * (a.unseen seen).card ≤ fuel) :
    Comes a holds p value fuel seen [] stack found none :=
  ⟨fuel, seen, found, rfl, hfuel, .refl⟩

theorem comes_of_explores (hexplores : ∀ n ∈ states, Explores a holds p value n (a.outcome p n))
    (hfuel : (states ++ stack).length + 2 * (a.unseen seen).card ≤ fuel)
    (htried : ∀ n ∈ states, Tried a p value seen found n) :
    Comes a holds p value fuel seen states stack found (states.findSome? (a.outcome p)) := by
  induction states generalizing fuel seen found with
  | nil => exact .nil hfuel
  | cons n states ih =>
      obtain ⟨hn, hstates⟩ := List.forall_mem_cons.1 hexplores
      obtain ⟨htriedn, htried⟩ := List.forall_mem_cons.1 htried
      obtain ⟨fuel', seen', found', heq, hfuel', hfinding⟩ :=
        hn fuel seen (states ++ stack) found hfuel htriedn
      obtain ⟨fuel'', seen'', found'', heq', hfuel'', hfinding'⟩ :=
        ih hstates hfuel' fun m hm => (htried m hm).after hfinding
      refine ⟨fuel'', seen'', found'', heq.trans heq', hfuel'', ?_⟩
      rw [findSome?_cons_or]
      exact hfinding.trans hfinding'

open Classical in
/-- It is enough to look at a state that has not been visited. -/
theorem Runs.explores_of_new (h : a.Runs n p r) (later : Option Point)
    (hr : (if a.IsListed n then value n else none).or later = r)
    (hnew : ∀ (fuel : Nat) (seen : Std.TreeSet Nat) (stack found : List Nat),
      (a.waysOf holds n ++ stack).length + 2 * (a.unseen seen).card ≤ fuel →
      (∀ m, a.Leads (holdsAt p) n m → Tried a p value seen found m) →
      Comes a holds p value fuel seen (a.waysOf holds n) stack found later) :
    Explores a holds p value n r := by
  intro fuel seen stack found hfuel htried
  obtain ⟨fuel, rfl⟩ : ∃ k, fuel = k + 1 :=
    Nat.exists_eq_succ_of_ne_zero (by rw [List.length_cons] at hfuel; omega)
  have hsome : (a.outcome p n).isSome = r.isSome := by rw [h.outcome_eq]
  cases hseen : seen.contains n with
  | true =>
      -- it was tried before, so that its outcome adds nothing
      rw [List.length_cons] at hfuel
      refine ⟨fuel, seen, found, visit_seen hseen, by omega, ⟨?_, fun m => .inl⟩⟩
      have hbest := htried n .refl hseen
      rw [hsome] at hbest
      cases hr : r with
      | none => exact Option.or_none.symm
      | some q => exact (Option.or_of_isSome (hbest (by simp [hr]))).symm
  | false =>
      have hbest : best value (if a.IsListed n then n :: found else found) =
          (best value found).or (if a.IsListed n then value n else none) := by
        split
        · exact best_cons
        · exact Option.or_none.symm
      -- the state itself is not met again below, because nothing leads back to it
      have hways : ∀ m, a.Leads (holdsAt p) n m → Tried a p value (seen.insert n)
          (if a.IsListed n then n :: found else found) m := by
        intro m hleads x hpath hx houtcome
        obtain rfl | hx := contains_insert_iff.1 hx
        · exact absurd (.head' hleads hpath) h.not_transGen
        · rw [hbest, Option.isSome_or, htried x (.head hleads hpath) hx houtcome, Bool.true_or]
      obtain ⟨fuel', seen', found', heq, hfuel', hfinding⟩ :=
        hnew fuel (seen.insert n) stack _ (fuel_of_new hfuel hseen) hways
      have hall : best value found' = (best value found).or r := by
        rw [hfinding.best_eq, hbest, Option.or_assoc, hr]
      refine ⟨fuel', seen', found', (visit_new hseen).trans heq, hfuel', ⟨hall, fun m hm => ?_⟩⟩
      obtain hm | hm := hfinding.tried m hm
      · obtain rfl | hm := contains_insert_iff.1 hm
        · refine .inr fun houtcome => ?_
          rw [hall, Option.isSome_or, ← hsome, houtcome, Bool.or_true]
        · exact .inl hm
      · exact .inr hm

open Classical in
theorem Runs.explores_of_waysOf_eq_nil (h : a.Runs n p r)
    (hr : (if a.IsListed n then value n else none) = r) (hways : a.waysOf holds n = []) :
    Explores a holds p value n r := by
  refine h.explores_of_new none (by rw [hr, Option.or_none]) fun _ _ _ _ hfuel _ => ?_
  rw [hways] at hfuel ⊢
  exact .nil hfuel

theorem Values.eq_outcome (h : Values a holds p value)
    (hn : ∀ condition next, a.state n = .look condition next → holds condition = false) :
    value n = a.outcome p n := by
  obtain hvalue | ⟨_, condition, next, hstate, hholds⟩ := h n
  · exact hvalue
  · rw [hn _ _ hstate] at hholds
    cases hholds

theorem Runs.explores (h : a.Runs n p r) (hvalues : Values a holds p value)
    (hholds : ∀ condition, holds condition = true → holdsAt p condition = true) :
    Explores a holds p value n r := by
  have hruns := h
  induction h with
  | @accept n p hn =>
      have hvalue := hvalues.eq_outcome (n := n) (by simp [hn])
      refine hruns.explores_of_waysOf_eq_nil ?_ (by simp only [waysOf, hn])
      simp [IsListed, hn, hvalue, hruns.outcome_eq]
  | @fail n p hn =>
      refine hruns.explores_of_waysOf_eq_nil ?_ (by simp only [waysOf, hn])
      simp [IsListed, hn]
  | @read n next p s way hn _ _ =>
      have hvalue := hvalues.eq_outcome (n := n) (by simp [hn])
      refine hruns.explores_of_waysOf_eq_nil ?_ (by simp only [waysOf, hn])
      simp [IsListed, hn, hvalue, hruns.outcome_eq]
  | @look n next p condition r hn hr ih =>
      cases hcondition : holds condition with
      | false =>
          have hvalue := hvalues.eq_outcome (n := n) (by simp [hn, hcondition])
          refine hruns.explores_of_waysOf_eq_nil ?_ (by simp [waysOf, hn, hcondition])
          simp [IsListed, hn, hvalue, hruns.outcome_eq]
      | true =>
          have hhere : holdsAt p condition = true := hholds _ hcondition
          rw [if_pos hhere] at hruns ⊢
          refine hruns.explores_of_new r ?_ fun fuel seen stack found hfuel htried => ?_
          · obtain hvalue | ⟨hvalue, _⟩ := hvalues n
            · simp [IsListed, hn, hvalue, hruns.outcome_eq]
            · simp [IsListed, hn, hvalue]
          · have hways : a.waysOf holds n = [next] := by simp [waysOf, hn, hcondition]
            rw [hways] at hfuel ⊢
            refine ih hhere hvalues hholds (hr hhere) fuel seen stack found hfuel (htried next ?_)
            simp [Leads, hn, hhere]
  | @split n first second p r r' hn hfirst hsecond ih ih' =>
      have hways : a.waysOf holds n = [first, second] := by simp only [waysOf, hn]
      refine hruns.explores_of_new (r.or r') ?_ fun fuel seen stack found hfuel htried => ?_
      · simp [IsListed, hn]
      · have hboth : [first, second].findSome? (a.outcome p) = r.or r' := by
          rw [findSome?_cons_or, findSome?_cons_or, hfirst.outcome_eq, hsecond.outcome_eq]
          simp
        rw [hways] at hfuel ⊢
        rw [← hboth]
        refine comes_of_explores ?_ hfuel ?_
        · simp only [List.forall_mem_cons, hfirst.outcome_eq, hsecond.outcome_eq]
          exact ⟨ih hvalues hholds hfirst, ih' hvalues hholds hsecond, by simp⟩
        · simp only [List.forall_mem_cons]
          exact ⟨htried first (by simp [Leads, hn]), htried second (by simp [Leads, hn]), by simp⟩

/-- The first of the states reached from which an end is found leads to the one that is found from the
states that are visited. -/
theorem findSome?_reach (hvalues : Values a holds p value)
    (hholds : ∀ condition, holds condition = true → holdsAt p condition = true)
    (hstates : ∀ n ∈ states, a.Halts n p) :
    (a.reach holds states).findSome? value = states.findSome? (a.outcome p) := by
  have hcomes : Comes a holds p value (states.length + 2 * a.states.size) ∅ states [] []
      (states.findSome? (a.outcome p)) := by
    refine comes_of_explores (fun n hn => (hstates n hn).runs.explores hvalues hholds) ?_ ?_
    · rw [List.append_nil, card_unseen_empty]
    · intro n _ m _ hm
      simp at hm
  obtain ⟨fuel', seen', found', heq, _, hfinding⟩ := hcomes
  rw [List.append_nil, visit_nil] at heq
  unfold reach
  rw [heq]
  exact hfinding.best_eq

end Peg.Automaton
