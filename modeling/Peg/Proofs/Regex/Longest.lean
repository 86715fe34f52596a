import Peg.Proofs.Regex.Reached
import Peg.Proofs.Rule.Matching

/-!
# Longest matches

Where the only condition in an automaton is the one that ties a match to the start of the text, a
search is a run over lists of states, each settled by the list before and the character read. What it
finds is the longest beginning of the text that leads to a list with an accepting state. Main
statements: `Automaton.findEnd_append` and `Automaton.takes_of_findEnd`.
-/

namespace Peg.Automaton

variable {a : Automaton} {states : List Nat} {u v text rest : List Char} {n : Nat}

/-- There is no condition in the automaton but that of the start of the text. -/
def isAnchored (a : Automaton) : Bool :=
  !a.unicodeWords && a.states.all fun
    | .look condition _ => condition == .textStart
    | _ => true

/-- The list of states behind a character that is not the first of its text. -/
def step (a : Automaton) (states : List Nat) (c : Char) : List Nat :=
  a.reach (fun _ => false) (a.follow c states)

def after (a : Automaton) (states : List Nat) (text : List Char) : List Nat :=
  text.foldl a.step states

/-- The list of states at the start of a text. -/
def first (a : Automaton) : List Nat := a.reach (·.holdsAfter none) [a.start]

/-- The text leads from the states to an accepting one. -/
def Takes (a : Automaton) (states : List Nat) (text : List Char) : Prop :=
  a.accepts (a.after states text) = true

instance (a : Automaton) (states : List Nat) (text : List Char) : Decidable (a.Takes states text) :=
  inferInstanceAs (Decidable (_ = true))

/-- The length of the longest beginning of a text that leads to an accepting state. -/
def longest (a : Automaton) (states : List Nat) : List Char → Option Nat
  | [] => if a.accepts states then some 0 else none
  | c :: rest =>
    ((longest a (a.step states c) rest).map (c.utf8Size + ·)).or
      (if a.accepts states then some 0 else none)

@[simp] theorem takes_nil : a.Takes states [] ↔ a.accepts states = true := Iff.rfl

@[simp] theorem takes_cons {c : Char} : a.Takes states (c :: text) ↔ a.Takes (a.step states c) text :=
  Iff.rfl

theorem takes_append : a.Takes states (u ++ v) ↔ a.Takes (a.after states u) v := by
  simp [Takes, after]

/-! ## Searches -/

theorem eq_textStart (h : a.isAnchored = true) {condition : Look} {next : Nat}
    (hn : a.state n = .look condition next) : condition = .textStart := by
  have hall := (Bool.and_eq_true_iff.1 h).2
  rw [Array.all_eq_true] at hall
  unfold state at hn
  cases hstate : a.states[n]? with
  | none =>
      rw [hstate] at hn
      cases hn
  | some found =>
      rw [hstate] at hn
      cases hn
      obtain ⟨hlt, hfound⟩ := Array.getElem?_eq_some_iff.1 hstate
      have hcondition := hall n hlt
      rw [hfound] at hcondition
      exact beq_iff_eq.1 hcondition

theorem resolve_eq (h : a.isAnchored = true) (before next : Option Char) :
    a.resolve before next states = states := by
  have hlate : a.isLate before next states = false := by
    unfold isLate
    rw [List.any_eq_false]
    intro n _
    split
    · next condition target hn =>
        rw [eq_textStart h hn]
        simp [Look.holds, Look.holdsAfter]
    · simp
  unfold resolve
  rw [hlate]
  rfl

theorem reach_holdsAfter (h : a.isAnchored = true) (c : Char) :
    a.reach (·.holdsAfter (some c)) states = a.reach (fun _ => false) states := by
  refine congrArg List.reverse (visit_congr fun n _ condition next hn => ?_)
  rw [eq_textStart h hn]
  rfl

@[simp] theorem follow_nil (c : Char) : a.follow c [] = [] := rfl

theorem step_nil (c : Char) : a.step [] c = [] := reach_nil _

theorem longest_nil (text : List Char) : a.longest [] text = none := by
  induction text with
  | nil => rfl
  | cons c rest ih =>
      rw [longest, step_nil, ih]
      rfl

theorem searchAheadFrom_eq (h : a.isAnchored = true) {plain : Char → Bool}
    (hplain : ∀ c, plain c = true) (before : Option Char) (matched : Bool) (offset : Nat)
    (best : Option Nat) :
    a.searchAheadFrom plain states before matched offset best text =
      some (((a.longest states text).map (offset + ·)).or best) := by
  induction text generalizing states before matched offset best with
  | nil =>
      simp only [searchAheadFrom, resolve_eq h, longest]
      split <;> rfl
  | cons c rest ih =>
      simp only [searchAheadFrom, resolve_eq h, reach_holdsAfter h, hplain, Bool.not_true,
        Bool.false_eq_true, if_false]
      split
      · next hempty =>
          -- the search ends early when no state is left, and then nothing longer is taken
          rw [List.isEmpty_iff.1 (Bool.and_eq_true_iff.1 hempty).1, longest_nil]
          rfl
      · rw [ih]
        simp only [longest, step]
        generalize a.longest (a.reach (fun _ => false) (a.follow c states)) rest = found
        cases found with
        | none =>
            split <;> simp
        | some m => simp [Nat.add_assoc]

theorem findEnd_eq (h : a.isAnchored = true) (text : List Char) :
    a.findEnd text = a.longest a.first text := by
  have hwords : a.unicodeWords = false := by
    simpa using (Bool.and_eq_true_iff.1 h).1
  have hplain (c : Char) : (!a.unicodeWords || decide (c.toNat < 128)) = true := by
    rw [hwords]
    rfl
  have hsearch : a.searchAhead (fun c => !a.unicodeWords || c.toNat < 128) text =
      some (a.longest a.first text) := by
    rw [searchAhead, ← first, searchAheadFrom_eq h hplain]
    cases a.longest a.first text <;> simp
  rw [findEnd, hsearch]

/-! ## What is found -/

theorem longest_eq_none (h : ∀ u v, text = u ++ v → ¬ a.Takes states u) :
    a.longest states text = none := by
  induction text generalizing states with
  | nil => exact if_neg (h [] [] rfl)
  | cons c rest ih =>
      have hrest : a.longest (a.step states c) rest = none := by
        apply ih
        intro u v huv
        exact h (c :: u) v (by rw [huv]; rfl)
      have hnow : ¬ a.accepts states = true := h [] (c :: rest) rfl
      rw [longest, hrest, if_neg hnow]
      rfl

theorem longest_append (hu : a.Takes states u)
    (hrest : ∀ v w, rest = v ++ w → v ≠ [] → ¬ a.Takes states (u ++ v)) :
    a.longest states (u ++ rest) = some (byteLength u) := by
  induction u generalizing states with
  | nil =>
      cases rest with
      | nil => exact if_pos hu
      | cons c rest =>
          have hlonger : a.longest (a.step states c) rest = none := by
            apply longest_eq_none
            intro v w hvw
            exact hrest (c :: v) w (by rw [hvw]; rfl) (List.cons_ne_nil c v)
          rw [List.nil_append, longest, hlonger, if_pos (takes_nil.1 hu)]
          rfl
  | cons c u ih =>
      rw [List.cons_append, longest, ih hu hrest]
      rfl

theorem exists_of_longest (h : a.longest states text = some n) :
    ∃ u rest, text = u ++ rest ∧ byteLength u = n ∧ a.Takes states u := by
  induction text generalizing states n with
  | nil =>
      simp only [longest, Option.ite_none_right_eq_some, Option.some.injEq] at h
      exact ⟨[], [], rfl, h.2, h.1⟩
  | cons c rest ih =>
      rw [longest, Option.or_eq_some_iff, Option.map_eq_some_iff] at h
      rcases h with ⟨m, hm, rfl⟩ | ⟨-, h⟩
      · obtain ⟨u, rest', rfl, rfl, hu⟩ := ih hm
        exact ⟨c :: u, rest', rfl, rfl, hu⟩
      · rw [Option.ite_none_right_eq_some, Option.some.injEq] at h
        exact ⟨[], c :: rest, rfl, h.2, h.1⟩

/-- A pattern matches the longest beginning that its automaton takes. -/
theorem findEnd_append (h : a.isAnchored = true) (hu : a.Takes a.first u)
    (hrest : ∀ v w, rest = v ++ w → v ≠ [] → ¬ a.Takes a.first (u ++ v)) :
    a.findEnd (u ++ rest) = some (byteLength u) := by
  rw [findEnd_eq h, longest_append hu hrest]

theorem exists_of_findEnd (h : a.isAnchored = true) (hn : a.findEnd text = some n) :
    ∃ u rest, text = u ++ rest ∧ byteLength u = n ∧ a.Takes a.first u := by
  rw [findEnd_eq h] at hn
  exact exists_of_longest hn

/-- What is found is taken. -/
theorem takes_of_findEnd (h : a.isAnchored = true)
    (hu : a.findEnd (u ++ rest) = some (byteLength u)) : a.Takes a.first u := by
  obtain ⟨u', rest', heq, hlength, htakes⟩ := exists_of_findEnd h hu
  have hsame : u = u' := by
    rw [← takeBytes_byteLength_append u rest, heq, ← hlength, takeBytes_byteLength_append]
  rwa [hsame]

theorem findEnd_eq_none (h : a.isAnchored = true)
    (htext : ∀ u v, text = u ++ v → ¬ a.Takes a.first u) : a.findEnd text = none := by
  rw [findEnd_eq h, longest_eq_none htext]

end Peg.Automaton
