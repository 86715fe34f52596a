import Peg.Proofs.Regex.Matches
import Peg.Regex.Automaton

/-!
# Paths through automata

A path leads from state to state and reads a text on its way. A part of an automaton with one entry and
one exit links them by what can be read in between (`Links`): the paths that begin at the entry and come
to accept are those that read it and go on from the exit.
-/

namespace Peg.Automaton

open Regex (Point Rounds AnyRounds)

variable {a : Automaton} {n m t j k entry exit : Nat} {p q r : Point}
  {R S : Point → Point → Prop}

/-! ## Paths -/

/-- A single step from a state at a point to another one. -/
def Steps (a : Automaton) (n : Nat) (p : Point) (m : Nat) (q : Point) : Prop :=
  match a.state n with
  | .read s next => m = next ∧ ∃ c, s.contains c = true ∧ p.Reads c q
  | .look condition next => m = next ∧ p = q ∧ p.Satisfies condition
  | .split first second => (m = first ∨ m = second) ∧ p = q
  | .accept => False
  | .fail => False

/-- Steps from a state at a point to another one, with their number. -/
inductive Path (a : Automaton) : Nat → Nat → Point → Nat → Point → Prop
  | refl (n : Nat) (p : Point) : Path a 0 n p n p
  | step {k n m t : Nat} {p q r : Point} :
      a.Steps n p m q → Path a k m q t r → Path a (k + 1) n p t r

theorem Path.trans (h : a.Path j n p m q) (h' : a.Path k m q t r) :
    ∃ l, a.Path l n p t r := by
  induction h with
  | refl => exact ⟨k, h'⟩
  | step hstep _ ih =>
      obtain ⟨l, hl⟩ := ih h'
      exact ⟨l + 1, .step hstep hl⟩

theorem Steps.eq_or_reads (h : a.Steps n p m q) : p = q ∨ ∃ c, p.Reads c q := by
  unfold Steps at h
  cases hstate : a.state n with
  | read s next =>
      simp only [hstate] at h
      obtain ⟨_, c, _, hreads⟩ := h
      exact .inr ⟨c, hreads⟩
  | look condition next =>
      simp only [hstate] at h
      exact .inl h.2.1
  | split first second =>
      simp only [hstate] at h
      exact .inl h.2
  | accept => simp only [hstate] at h
  | fail => simp only [hstate] at h

theorem Path.exists_readsAll (h : a.Path k n p m q) : ∃ u, Point.ReadsAll u p q := by
  induction h with
  | refl => exact ⟨[], rfl⟩
  | step hstep _ ih =>
      obtain ⟨u, hu⟩ := ih
      obtain rfl | ⟨c, hc⟩ := hstep.eq_or_reads
      · exact ⟨u, hu⟩
      · exact ⟨c :: u, _, hc, hu⟩

/-- From a state at one point the automaton can come to accept at another one. -/
def Reaches (a : Automaton) (n : Nat) (p q : Point) : Prop :=
  ∃ k t, a.Path k n p t q ∧ a.state t = .accept

theorem Path.eq_of_accept (h : a.Path k n p t q) (hn : a.state n = .accept) : p = q := by
  cases h with
  | refl => rfl
  | step hstep => simp [Steps, hn] at hstep

/-! ## Entries and exits -/

/-- What is read on the way from the entry to the exit is related, and there is no other way to
accept. -/
structure Links (a : Automaton) (entry exit : Nat) (R : Point → Point → Prop) : Prop where
  sound : ∀ {k t : Nat} {p q : Point}, a.Path k entry p t q → a.state t = .accept →
    ∃ m j, j ≤ k ∧ R p m ∧ a.Path j exit m t q
  complete : ∀ {p q : Point}, R p q → ∃ k, a.Path k entry p exit q

namespace Links

theorem refl (a : Automaton) (n : Nat) : Links a n n Eq where
  sound hpath _ := ⟨_, _, Nat.le_refl _, rfl, hpath⟩
  complete h := h ▸ ⟨0, .refl _ _⟩

theorem congr (h : Links a entry exit R) (hRS : ∀ p q, R p q ↔ S p q) :
    Links a entry exit S where
  sound hpath haccept := by
    obtain ⟨m, j, hj, hR, hleft⟩ := h.sound hpath haccept
    exact ⟨m, j, hj, (hRS _ _).1 hR, hleft⟩
  complete hS := h.complete ((hRS _ _).2 hS)

theorem comp (h : Links a entry m S) (h' : Links a m exit R) :
    Links a entry exit (Relation.Comp S R) where
  sound hpath haccept := by
    obtain ⟨q, j, hj, hS, hmiddle⟩ := h.sound hpath haccept
    obtain ⟨r, i, hi, hR, hleft⟩ := h'.sound hmiddle haccept
    exact ⟨r, i, Nat.le_trans hi hj, ⟨q, hS, hR⟩, hleft⟩
  complete hcomp := by
    obtain ⟨q, hS, hR⟩ := hcomp
    obtain ⟨j, hj⟩ := h.complete hS
    obtain ⟨k, hk⟩ := h'.complete hR
    exact hj.trans hk

theorem single (hn : a.state n ≠ .accept)
    (hstep : ∀ p m q, a.Steps n p m q ↔ m = exit ∧ R p q) : Links a n exit R where
  sound hpath haccept := by
    cases hpath with
    | refl => exact absurd haccept hn
    | step h hleft =>
        obtain ⟨rfl, hR⟩ := (hstep _ _ _).1 h
        exact ⟨_, _, Nat.le_succ _, hR, hleft⟩
  complete hR := ⟨1, .step ((hstep _ _ _).2 ⟨rfl, hR⟩) (.refl _ _)⟩

theorem split {first second : Nat} (hn : a.state n = .split first second)
    (h : Links a first exit R) (h' : Links a second exit S) :
    Links a n exit fun p q => R p q ∨ S p q where
  sound hpath haccept := by
    cases hpath with
    | refl =>
        rw [hn] at haccept
        cases haccept
    | step hstep hleft =>
        simp only [Steps, hn] at hstep
        obtain ⟨rfl | rfl, rfl⟩ := hstep
        · obtain ⟨m, j, hj, hR, hexit⟩ := h.sound hleft haccept
          exact ⟨m, j, Nat.le_succ_of_le hj, .inl hR, hexit⟩
        · obtain ⟨m, j, hj, hS, hexit⟩ := h'.sound hleft haccept
          exact ⟨m, j, Nat.le_succ_of_le hj, .inr hS, hexit⟩
  complete hor := by
    have hsteps : ∀ p, a.Steps n p first p ∧ a.Steps n p second p := by
      intro p
      simp [Steps, hn]
    obtain hR | hS := hor
    · obtain ⟨k, hk⟩ := h.complete hR
      exact ⟨k + 1, .step (hsteps _).1 hk⟩
    · obtain ⟨k, hk⟩ := h'.complete hS
      exact ⟨k + 1, .step (hsteps _).2 hk⟩

theorem skip {greedy : Bool} (hn : a.state n = Stage.split greedy entry exit)
    (h : Links a entry exit R) : Links a n exit fun p q => p = q ∨ R p q := by
  cases greedy with
  | true => exact (split hn h (.refl a exit)).congr fun _ _ => or_comm
  | false => exact split hn (.refl a exit) h

theorem loop {greedy : Bool} (hn : a.state n = Stage.split greedy entry exit)
    (h : Links a entry n R) : Links a n exit (AnyRounds R) where
  sound := by
    have hstep : ∀ {p m q}, a.Steps n p m q → (m = entry ∨ m = exit) ∧ p = q := by
      intro p m q hsteps
      cases greedy with
      | true => simpa [Steps, hn, Stage.split] using hsteps
      | false => simpa [Steps, hn, Stage.split, or_comm] using hsteps
    intro k
    induction k using Nat.strongRecOn with
    | ind k ih =>
        intro t p q hpath haccept
        cases hpath with
        | refl =>
            rw [hn] at haccept
            cases greedy <;> cases haccept
        | @step k _ m _ _ _ _ hfirst hleft =>
            obtain ⟨rfl | rfl, rfl⟩ := hstep hfirst
            · obtain ⟨p', j, hj, hR, hback⟩ := h.sound hleft haccept
              obtain ⟨q', i, hi, ⟨rounds, hrounds⟩, hexit⟩ :=
                ih j (Nat.lt_succ_of_le hj) hback haccept
              exact ⟨q', i, by omega, ⟨rounds + 1, p', hR, hrounds⟩, hexit⟩
            · exact ⟨_, k, Nat.le_succ _, ⟨0, rfl⟩, hleft⟩
  complete := by
    have hstep : ∀ p, a.Steps n p entry p ∧ a.Steps n p exit p := by
      intro p
      cases greedy <;> simp [Steps, hn, Stage.split]
    intro p q hany
    obtain ⟨rounds, hrounds⟩ := hany
    induction rounds generalizing p with
    | zero =>
        cases hrounds
        exact ⟨1, .step (hstep _).2 (.refl _ _)⟩
    | succ rounds ih =>
        obtain ⟨p', hR, hrounds⟩ := hrounds
        obtain ⟨j, hj⟩ := h.complete hR
        obtain ⟨k, hk⟩ := ih hrounds
        obtain ⟨l, hl⟩ := hj.trans hk
        exact ⟨l + 1, .step (hstep _).1 hl⟩

end Links

end Peg.Automaton
