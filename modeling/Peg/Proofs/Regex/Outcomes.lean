import Peg.Proofs.Regex.Preference
import Peg.Regex.Automaton

/-!
# Outcomes

An automaton that tries one way after the other comes from a state at a point to the end that it finds
first, or to none, unless it goes round without reading (`Runs`). Between two states it prefers what an
expression prefers if from the first one it finds what the expression finds where the second one goes on
(`Prefers`).
-/

namespace Peg.Automaton

open Regex (Point Way Rounds AnyRounds RoundsUpTo either upTo)

variable {a : Automaton} {n m entry exit : Nat} {p q : Point} {r r' : Option Point}
  {R S : Point → Point → Prop} {F G : Way → Way} {greedy : Bool}

abbrev holdsAt (p : Point) (condition : Look) : Bool := condition.holds p.before p.rest.head?

/-- What is found from a state at a point where all ways come to an end. -/
inductive Runs (a : Automaton) : Nat → Point → Option Point → Prop
  | accept {n : Nat} {p : Point} (h : a.state n = .accept) : Runs a n p (some p)
  | fail {n : Nat} {p : Point} (h : a.state n = .fail) : Runs a n p none
  | read {n next : Nat} {p : Point} {s : CharSet} {way : Way} (h : a.state n = .read s next)
      (hway : ∀ q, p.read s = some q → Runs a next q (way q)) : Runs a n p ((p.read s).bind way)
  | look {n next : Nat} {p : Point} {condition : Look} {r : Option Point}
      (h : a.state n = .look condition next) (hr : holdsAt p condition = true → Runs a next p r) :
      Runs a n p (if holdsAt p condition then r else none)
  | split {n first second : Nat} {p : Point} {r r' : Option Point}
      (h : a.state n = .split first second) (hfirst : Runs a first p r)
      (hsecond : Runs a second p r') : Runs a n p (r.or r')

theorem Runs.unique (h : a.Runs n p r) (h' : a.Runs n p r') : r = r' := by
  induction h generalizing r' with
  | accept hn =>
      cases h' with
      | accept => rfl
      | _ hn' => simp [hn] at hn'
  | fail hn =>
      cases h' with
      | fail => rfl
      | _ hn' => simp [hn] at hn'
  | read hn _ ih =>
      cases h' with
      | read hn' hway' =>
          rw [hn] at hn'
          cases hn'
          refine Option.bind_congr fun q hq => ?_
          exact ih q hq (hway' q hq)
      | _ hn' => simp [hn] at hn'
  | look hn _ ih =>
      cases h' with
      | look hn' hr' =>
          rw [hn] at hn'
          cases hn'
          split
          · next hholds => exact ih hholds (hr' hholds)
          · rfl
      | _ hn' => simp [hn] at hn'
  | split hn _ _ ih ih' =>
      cases h' with
      | split hn' hfirst hsecond =>
          rw [hn] at hn'
          cases hn'
          rw [ih hfirst, ih' hsecond]
      | _ hn' => simp [hn] at hn'

/-! ## Entries and exits -/

/-- Where the exit goes on in a way, what is found from the entry is as given. What is related to a
point are the ones where the exit can be reached from there. -/
structure Prefers (a : Automaton) (entry exit : Nat) (R : Point → Point → Prop) (F : Way → Way) :
    Prop where
  runs : ∀ {way : Way} {p : Point}, (∀ q, R p q → a.Runs exit q (way q)) → a.Runs entry p (F way p)

theorem Runs.either {round way : Way} (hn : a.state n = Stage.split greedy entry exit)
    (hround : a.Runs entry p (round p)) (hexit : a.Runs exit p (way p)) :
    a.Runs n p (Regex.either greedy round way p) := by
  cases greedy with
  | true => exact .split hn hround hexit
  | false => exact .split hn hexit hround

namespace Prefers

theorem refl (a : Automaton) (n : Nat) : Prefers a n n Eq id where
  runs hexit := hexit _ rfl

theorem mono (h : Prefers a entry exit R F) (hRS : ∀ p q, R p q → S p q) :
    Prefers a entry exit S F where
  runs hexit := h.runs fun q hq => hexit q (hRS _ q hq)

theorem comp (h : Prefers a entry m S G) (h' : Prefers a m exit R F) :
    Prefers a entry exit (Relation.Comp S R) (G ∘ F) where
  runs hexit := h.runs fun q hq => h'.runs fun q' hq' => hexit q' ⟨q, hq, hq'⟩

theorem read {s : CharSet} (hn : a.state n = .read s exit) :
    Prefers a n exit (fun p q => ∃ c, s.contains c = true ∧ p.Reads c q)
      fun way p => (p.read s).bind way where
  runs hexit := .read hn fun q hq => hexit q (Point.read_eq_some_iff.1 hq)

theorem look {condition : Look} (hn : a.state n = .look condition exit) :
    Prefers a n exit (fun p q => p = q ∧ p.Satisfies condition)
      fun way p => if holdsAt p condition then way p else none where
  runs hexit := .look hn fun hholds => hexit _ ⟨rfl, hholds⟩

theorem split {first second : Nat} (hn : a.state n = .split first second)
    (h : Prefers a first exit R F) (h' : Prefers a second exit S G) :
    Prefers a n exit (fun p q => R p q ∨ S p q) fun way p => (F way p).or (G way p) where
  runs hexit := .split hn (h.runs fun q hq => hexit q (.inl hq)) (h'.runs fun q hq => hexit q (.inr hq))

theorem skip (hn : a.state n = Stage.split greedy entry exit) (h : Prefers a entry exit R F) :
    Prefers a n exit (fun p q => p = q ∨ R p q) fun way => either greedy (F way) way where
  runs hexit := .either hn (h.runs fun q hq => hexit q (.inr hq)) (hexit _ (.inl rfl))

/-- A state from which a body is entered that reads something and returns to it. There are no more
rounds than characters. -/
theorem loop (hn : a.state n = Stage.split greedy entry exit) (h : Prefers a entry n R F)
    (hR : ∀ p q, R p q → p.Before q) :
    Prefers a n exit (AnyRounds R) fun way p => upTo greedy F (p.rest.length + 1) way p where
  runs := by
    intro way p hexit
    have hrounds : ∀ k p, p.rest.length < k →
        (∀ q, AnyRounds R p q → a.Runs exit q (way q)) → a.Runs n p (upTo greedy F k way p) := by
      intro k
      induction k with
      | zero => exact fun p hk => absurd hk (Nat.not_lt_zero _)
      | succ k ih =>
          intro p hk hexit
          refine .either hn (h.runs fun q hq => ih q ?_ fun q' hq' => hexit q' ?_) (hexit p ⟨0, rfl⟩)
          · have hbefore : q.rest.length < p.rest.length := hR p q hq
            omega
          · exact (Regex.anyRounds_iff p q').1 (.inr ⟨q, hq, hq'⟩)
    exact hrounds _ p (Nat.lt_succ_self _) hexit

end Prefers

end Peg.Automaton
