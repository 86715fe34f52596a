import Mathlib.Data.Finset.Card
import Mathlib.Data.Finset.Range
import Mathlib.Logic.Relation
import Peg.Regex.Search

/-!
# States that are reached without reading

A visit finds the states that read, accept or set a condition and can be reached from its stack, in
whatever order. What is found later starting from these states is found starting from the stack itself.
Main statements: `Automaton.mem_reach_iff` and `Automaton.resolve_reach`.
-/

namespace Peg.Automaton

open Relation (ReflTransGen)

variable {a : Automaton} {holds : Look → Bool} {fuel n m : Nat} {seen : Std.TreeSet Nat}
  {stack found states : List Nat}

/-- The first state leads to the second one without reading. -/
def Leads (a : Automaton) (holds : Look → Bool) (n m : Nat) : Prop :=
  match a.state n with
  | .look condition next => holds condition = true ∧ m = next
  | .split first second => m = first ∨ m = second
  | _ => False

/-- The state is listed when it is reached. -/
def IsListed (a : Automaton) (n : Nat) : Prop :=
  match a.state n with
  | .read _ _ => True
  | .look _ _ => True
  | .accept => True
  | _ => False

/-! ## Visits -/

/-- The states that a new state puts on the stack. -/
def waysOf (a : Automaton) (holds : Look → Bool) (n : Nat) : List Nat :=
  match a.state n with
  | .look condition next => if holds condition then [next] else []
  | .split first second => [first, second]
  | _ => []

theorem mem_waysOf_iff : m ∈ a.waysOf holds n ↔ a.Leads holds n m := by
  unfold waysOf Leads
  cases a.state n with
  | look condition next => cases holds condition <;> simp
  | _ => simp

theorem length_waysOf_le : (a.waysOf holds n).length ≤ 2 := by
  unfold waysOf
  cases a.state n with
  | look condition next =>
      show (if _ then _ else _ : List Nat).length ≤ 2
      split <;> simp
  | _ => simp

theorem waysOf_of_size_le (h : a.states.size ≤ n) : a.waysOf holds n = [] := by
  have hstate : a.state n = .fail := by
    unfold state
    rw [Array.getElem?_eq_none h]
    rfl
  unfold waysOf
  rw [hstate]

theorem visit_nil : a.visit holds fuel seen [] found = found := by
  cases fuel <;> rfl

open Classical in
theorem visit_new (hnew : seen.contains n = false) :
    a.visit holds (fuel + 1) seen (n :: stack) found =
      a.visit holds fuel (seen.insert n) (a.waysOf holds n ++ stack)
        (if a.IsListed n then n :: found else found) := by
  rw [visit]
  simp only [hnew, Bool.false_eq_true, if_false]
  unfold waysOf IsListed
  cases a.state n with
  | look condition next => cases hholds : holds condition <;> simp [hholds]
  | _ => simp

theorem visit_seen (hseen : seen.contains n = true) :
    a.visit holds (fuel + 1) seen (n :: stack) found = a.visit holds fuel seen stack found := by
  rw [visit]
  simp only [hseen, if_true]

theorem exists_of_mem_visit (h : n ∈ a.visit holds fuel seen stack found) :
    n ∈ found ∨ (a.IsListed n ∧ ∃ s ∈ stack, ReflTransGen (a.Leads holds) s n) := by
  induction fuel generalizing seen stack found with
  | zero => exact .inl h
  | succ fuel ih =>
      cases stack with
      | nil => exact .inl h
      | cons m stack =>
          cases hseen : seen.contains m with
          | true =>
              rw [visit_seen hseen] at h
              obtain hfound | ⟨hlisted, s, hs, hpath⟩ := ih h
              · exact .inl hfound
              · exact .inr ⟨hlisted, s, List.mem_cons_of_mem m hs, hpath⟩
          | false =>
              rw [visit_new hseen] at h
              obtain hfound | ⟨hlisted, s, hs, hpath⟩ := ih h
              · split at hfound
                · next hm =>
                    obtain rfl | hfound := List.mem_cons.1 hfound
                    · exact .inr ⟨hm, n, List.mem_cons_self .., .refl⟩
                    · exact .inl hfound
                · exact .inl hfound
              · obtain hway | hs := List.mem_append.1 hs
                · exact .inr ⟨hlisted, m, List.mem_cons_self ..,
                    .head (mem_waysOf_iff.1 hway) hpath⟩
                · exact .inr ⟨hlisted, s, List.mem_cons_of_mem m hs, hpath⟩

/-- The states that have not been visited. -/
def unseen (a : Automaton) (seen : Std.TreeSet Nat) : Finset Nat :=
  (Finset.range a.states.size).filter fun n => seen.contains n = false

/-- What has been visited is in the list, and so is what it leads to unless it is on the stack. -/
def Explored (a : Automaton) (holds : Look → Bool) (seen : Std.TreeSet Nat)
    (stack found : List Nat) : Prop :=
  ∀ n, seen.contains n = true → (a.IsListed n → n ∈ found) ∧
    ∀ m, a.Leads holds n m → seen.contains m = true ∨ m ∈ stack

theorem contains_insert_iff :
    (seen.insert n).contains m = true ↔ n = m ∨ seen.contains m = true := by
  simp [Std.TreeSet.contains_insert]

theorem unseen_insert_subset : a.unseen (seen.insert n) ⊆ a.unseen seen := by
  intro m hm
  simp only [unseen, Finset.mem_filter, ← Bool.not_eq_true, contains_insert_iff, not_or] at hm ⊢
  exact ⟨hm.1, hm.2.2⟩

theorem card_unseen_insert_lt (hnew : seen.contains n = false) (hn : n < a.states.size) :
    (a.unseen (seen.insert n)).card < (a.unseen seen).card := by
  refine Finset.card_lt_card (Finset.ssubset_iff_of_subset unseen_insert_subset |>.2 ⟨n, ?_, ?_⟩)
  · simp [unseen, hn, hnew]
  · simp [unseen]

theorem Explored.mem_found (h : a.Explored holds seen [] found) (hm : seen.contains m = true)
    (hpath : ReflTransGen (a.Leads holds) m n) (hlisted : a.IsListed n) : n ∈ found := by
  have hseen : seen.contains n = true := by
    clear hlisted
    induction hpath with
    | refl => exact hm
    | tail _ hlast ih => exact ((h _ ih).2 _ hlast).resolve_right List.not_mem_nil
  exact (h n hseen).1 hlisted

theorem Explored.pop (h : a.Explored holds seen (n :: stack) found)
    (hseen : seen.contains n = true) : a.Explored holds seen stack found := by
  intro x hx
  refine ⟨(h x hx).1, fun y hy => ?_⟩
  obtain hy | hy := (h x hx).2 y hy
  · exact .inl hy
  · obtain rfl | hy := List.mem_cons.1 hy
    · exact .inl hseen
    · exact .inr hy

open Classical in
theorem Explored.visit (h : a.Explored holds seen (n :: stack) found) :
    a.Explored holds (seen.insert n) (a.waysOf holds n ++ stack)
      (if a.IsListed n then n :: found else found) := by
  intro x hx
  obtain rfl | hx := contains_insert_iff.1 hx
  · refine ⟨fun hlisted => by simp [hlisted], fun y hy => .inr ?_⟩
    exact List.mem_append_left _ (mem_waysOf_iff.2 hy)
  · refine ⟨fun hlisted => ?_, fun y hy => ?_⟩
    · have hfound := (h x hx).1 hlisted
      split
      · exact List.mem_cons_of_mem _ hfound
      · exact hfound
    · rw [contains_insert_iff]
      obtain hy | hy := (h x hx).2 y hy
      · exact .inl (.inr hy)
      · obtain rfl | hy := List.mem_cons.1 hy
        · exact .inl (.inl rfl)
        · exact .inr (List.mem_append_right _ hy)

/-- Fuel for what is on the stack and for what has not been visited is enough to go on. -/
theorem fuel_of_new (hfuel : (n :: stack).length + 2 * (a.unseen seen).card ≤ fuel + 1)
    (hnew : seen.contains n = false) :
    (a.waysOf holds n ++ stack).length + 2 * (a.unseen (seen.insert n)).card ≤ fuel := by
  have hways : (a.waysOf holds n).length ≤ 2 := length_waysOf_le
  rw [List.length_append]
  rw [List.length_cons] at hfuel
  by_cases hn : n < a.states.size
  · have hless := card_unseen_insert_lt hnew hn
    omega
  · have hle : (a.unseen (seen.insert n)).card ≤ (a.unseen seen).card :=
      Finset.card_le_card unseen_insert_subset
    rw [waysOf_of_size_le (Nat.le_of_not_lt hn), List.length_nil]
    omega

theorem mem_visit (hfuel : stack.length + 2 * (a.unseen seen).card ≤ fuel)
    (hexplored : a.Explored holds seen stack found) (hm : seen.contains m = true ∨ m ∈ stack)
    (hpath : ReflTransGen (a.Leads holds) m n) (hlisted : a.IsListed n) :
    n ∈ a.visit holds fuel seen stack found := by
  induction fuel generalizing seen stack found with
  | zero =>
      have hnil : stack = [] := List.eq_nil_of_length_eq_zero (by omega)
      subst hnil
      exact hexplored.mem_found (hm.resolve_right List.not_mem_nil) hpath hlisted
  | succ fuel ih =>
      cases stack with
      | nil => exact hexplored.mem_found (hm.resolve_right List.not_mem_nil) hpath hlisted
      | cons s stack =>
          cases hseen : seen.contains s with
          | true =>
              rw [visit_seen hseen]
              rw [List.length_cons] at hfuel
              refine ih (by omega) (hexplored.pop hseen) ?_
              obtain hm | hm := hm
              · exact .inl hm
              · obtain rfl | hm := List.mem_cons.1 hm
                · exact .inl hseen
                · exact .inr hm
          | false =>
              rw [visit_new hseen]
              refine ih (fuel_of_new hfuel hseen) hexplored.visit ?_
              rw [contains_insert_iff]
              obtain hm | hm := hm
              · exact .inl (.inr hm)
              · obtain rfl | hm := List.mem_cons.1 hm
                · exact .inl (.inl rfl)
                · exact .inr (List.mem_append_right _ hm)

theorem card_unseen_empty : (a.unseen ∅).card = a.states.size := by
  simp [unseen]

@[simp] theorem reach_nil (holds : Look → Bool) : a.reach holds [] = [] := by
  simp [reach, visit_nil]

/-- The states that can be reached from others and are listed. -/
theorem mem_reach_iff : n ∈ a.reach holds states ↔
    a.IsListed n ∧ ∃ s ∈ states, ReflTransGen (a.Leads holds) s n := by
  unfold reach
  rw [List.mem_reverse]
  constructor
  · intro h
    exact (exists_of_mem_visit h).resolve_left List.not_mem_nil
  · intro h
    obtain ⟨hlisted, s, hs, hpath⟩ := h
    refine mem_visit (by rw [card_unseen_empty]) (fun x hx => ?_) (.inr hs) hpath hlisted
    simp at hx

/-! ## Conditions that are judged late -/

section Late

variable {holds' : Look → Bool} {before after : Option Char}

theorem mem_visit_of_mem_found (h : n ∈ found) : n ∈ a.visit holds fuel seen stack found := by
  induction fuel generalizing seen stack found with
  | zero => exact h
  | succ fuel ih =>
      cases stack with
      | nil => exact h
      | cons m stack =>
          cases hseen : seen.contains m with
          | true =>
              rw [visit_seen hseen]
              exact ih h
          | false =>
              rw [visit_new hseen]
              refine ih ?_
              split
              · exact List.mem_cons_of_mem m h
              · exact h

theorem isListed_of_look {condition : Look} {next : Nat} (h : a.state n = .look condition next) :
    a.IsListed n := by
  unfold IsListed
  rw [h]
  trivial

theorem visit_congr (h : ∀ n ∈ a.visit holds fuel seen stack found, ∀ condition next,
      a.state n = .look condition next → holds condition = holds' condition) :
    a.visit holds fuel seen stack found = a.visit holds' fuel seen stack found := by
  induction fuel generalizing seen stack found with
  | zero => rfl
  | succ fuel ih =>
      cases stack with
      | nil => rfl
      | cons m stack =>
          cases hseen : seen.contains m with
          | true =>
              rw [visit_seen hseen] at h ⊢
              rw [visit_seen hseen]
              exact ih h
          | false =>
              rw [visit_new hseen] at h ⊢
              rw [visit_new hseen]
              have hways : a.waysOf holds m = a.waysOf holds' m := by
                unfold waysOf
                cases hstate : a.state m with
                | look condition next =>
                    have hlisted := isListed_of_look hstate
                    have hm := h m (mem_visit_of_mem_found (by simp [hlisted])) _ _ hstate
                    simp only [hm]
                | _ => rfl
              rw [← hways]
              exact ih h

/-- Resolving a list of states that was reached before the next character was known. If no condition
turns out to hold the list is the one that is reached with the character known. -/
theorem resolve_reach : a.resolve before after (a.reach (·.holdsAfter before) states) =
    if a.isLate before after (a.reach (·.holdsAfter before) states) then
      a.reach (·.holds before after) (a.reach (·.holdsAfter before) states)
    else a.reach (·.holds before after) states := by
  unfold resolve
  split
  · rfl
  · next hlate =>
      refine congrArg List.reverse (visit_congr fun n hn condition next hstate => ?_)
      have hjudged := List.any_eq_false.1 (Bool.not_eq_true _ ▸ hlate) n (List.mem_reverse.2 hn)
      simp only [hstate] at hjudged
      cases hafter : condition.holdsAfter before with
      | true => exact (Look.holds_of_holdsAfter hafter after).symm
      | false => simpa [hafter] using hjudged

theorem Leads.mono (h : a.Leads holds n m)
    (hholds : ∀ condition, holds condition = true → holds' condition = true) :
    a.Leads holds' n m := by
  unfold Leads at h ⊢
  cases hstate : a.state n with
  | look condition next =>
      rw [hstate] at h
      exact ⟨hholds condition h.1, h.2⟩
  | split first second => simpa only [hstate] using h
  | _ => simp only [hstate] at h

theorem exists_listed (hpath : ReflTransGen (a.Leads holds') m n) (hlisted : a.IsListed n)
    (hm : ∃ s ∈ states, ReflTransGen (a.Leads holds) s m) :
    ∃ l ∈ a.reach holds states, ReflTransGen (a.Leads holds') l n := by
  induction hpath using ReflTransGen.head_induction_on with
  | refl => exact ⟨n, mem_reach_iff.2 ⟨hlisted, hm⟩, .refl⟩
  | @head x y hxy hpath ih =>
      obtain ⟨s, hs, hsx⟩ := hm
      cases hstate : a.state x with
      | look condition next =>
          have hx := mem_reach_iff.2 ⟨isListed_of_look hstate, s, hs, hsx⟩
          exact ⟨x, hx, .head hxy hpath⟩
      | split first second =>
          refine ih ⟨s, hs, hsx.tail ?_⟩
          simpa [Leads, hstate] using hxy
      | _ => simp [Leads, hstate] at hxy

theorem mem_reach_reach_iff
    (hholds : ∀ condition, holds condition = true → holds' condition = true) :
    n ∈ a.reach holds' (a.reach holds states) ↔
      a.IsListed n ∧ ∃ s ∈ states, ReflTransGen (a.Leads holds') s n := by
  rw [mem_reach_iff]
  constructor
  · intro h
    obtain ⟨hlisted, l, hl, hpath⟩ := h
    obtain ⟨_, s, hs, hsl⟩ := mem_reach_iff.1 hl
    exact ⟨hlisted, s, hs, (ReflTransGen.mono (fun _ _ h => h.mono hholds) _ _ hsl).trans hpath⟩
  · intro h
    obtain ⟨hlisted, s, hs, hpath⟩ := h
    exact ⟨hlisted, exists_listed hpath hlisted ⟨s, hs, .refl⟩⟩

end Late

end Peg.Automaton
