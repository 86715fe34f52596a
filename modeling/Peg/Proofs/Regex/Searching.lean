import Peg.Proofs.Regex.Paths
import Peg.Proofs.Regex.Visits

/-!
# Searches and paths

A search for the end of a match ends where a path from the start of the automaton accepts, and it finds
an end if there is such a path. Where all ways from the start come to an end it finds the first one of
them. Main statement: `Automaton.findEnd_finds`.
-/

namespace Peg.Automaton

open Regex (Point)
open Relation (ReflTransGen)

variable {a : Automaton} {n m offset e : Nat} {p p' q : Point} {c : Char}
  {states listed : List Nat} {before : Option Char} {best : Option Nat} {text : List Char}

theorem Leads.steps (h : a.Leads (holdsAt p) n m) : a.Steps n p m p := by
  unfold Leads at h
  unfold Steps
  cases hstate : a.state n with
  | look condition next =>
      simp only [hstate] at h
      exact ⟨h.2, rfl, h.1⟩
  | split first second =>
      simp only [hstate] at h
      exact ⟨h, rfl⟩
  | _ => simp only [hstate] at h

theorem Reaches.of_steps (hstep : a.Steps n p m p') (h : a.Reaches m p' q) : a.Reaches n p q := by
  obtain ⟨k, t, hpath, haccept⟩ := h
  exact ⟨k + 1, t, .step hstep hpath, haccept⟩

theorem Reaches.of_leads (hpath : ReflTransGen (a.Leads (holdsAt p)) n m) (h : a.Reaches m p q) :
    a.Reaches n p q := by
  induction hpath using ReflTransGen.head_induction_on with
  | refl => exact h
  | head hstep _ ih => exact ih.of_steps hstep.steps

theorem Reaches.of_accept (h : a.state n = .accept) (p : Point) : a.Reaches n p p :=
  ⟨0, n, .refl n p, h⟩

theorem Reaches.cases (h : a.Reaches n p q) :
    ∃ m, ReflTransGen (a.Leads (holdsAt p)) n m ∧
      (a.state m = .accept ∨ ∃ s next c p', a.state m = .read s next ∧ s.contains c = true ∧
        p.Reads c p' ∧ a.Reaches next p' q) := by
  obtain ⟨k, t, hpath, haccept⟩ := h
  induction hpath with
  | refl n p => exact ⟨n, .refl, .inl haccept⟩
  | @step k n m t p p' r hstep hpath ih =>
      have hrest : a.Reaches m p' r := ⟨k, t, hpath, haccept⟩
      obtain ⟨x, hx, hcases⟩ := ih haccept
      cases hstate : a.state n with
      | read s next =>
          simp only [Steps, hstate] at hstep
          obtain ⟨rfl, c, hc, hreads⟩ := hstep
          exact ⟨n, .refl, .inr ⟨s, m, c, p', hstate, hc, hreads, hrest⟩⟩
      | look condition next =>
          simp only [Steps, hstate] at hstep
          obtain ⟨rfl, rfl, hholds⟩ := hstep
          have hleads : a.Leads (holdsAt p) n m := by
            simp only [Leads, hstate]
            exact ⟨hholds, trivial⟩
          exact ⟨x, .head hleads hx, hcases⟩
      | split first second =>
          simp only [Steps, hstate] at hstep
          obtain ⟨hm, rfl⟩ := hstep
          have hleads : a.Leads (holdsAt p) n m := by
            simp only [Leads, hstate]
            exact hm
          exact ⟨x, .head hleads hx, hcases⟩
      | accept => simp only [Steps, hstate] at hstep
      | fail => simp only [Steps, hstate] at hstep

/-! ## Outcomes of single states -/

/-- What is found from a state, left to the states behind it where it is a condition. -/
noncomputable def ownOutcome (a : Automaton) (p : Point) (n : Nat) : Option Point :=
  match a.state n with
  | .look _ _ => none
  | _ => a.outcome p n

theorem outcome_of_shut {condition : Look} {next : Nat} (hn : a.state n = .look condition next)
    (hshut : holdsAt p condition = false) : a.outcome p n = none := by
  refine Runs.outcome_eq ?_
  have hruns : a.Runs n p (if holdsAt p condition then none else none) :=
    .look hn fun hholds => by simp [hshut] at hholds
  simpa using hruns

theorem values_ownOutcome (a : Automaton) (p : Point) :
    Values a (holdsAt p) p (a.ownOutcome p) := by
  intro n
  unfold ownOutcome
  cases hn : a.state n with
  | look condition next =>
      cases hholds : holdsAt p condition with
      | true => exact .inr ⟨rfl, condition, next, rfl, hholds⟩
      | false => exact .inl (outcome_of_shut hn hholds).symm
  | _ => exact .inl rfl

theorem Halts.of_read {s : CharSet} {next : Nat} (h : a.Halts n p) (hn : a.state n = .read s next)
    (hq : p.read s = some q) : a.Halts next q := by
  obtain ⟨r, hr⟩ := h
  cases hr with
  | read hn' hway =>
      rw [hn] at hn'
      cases hn'
      exact ⟨_, hway q hq⟩
  | _ hn' => simp [hn] at hn'

theorem ownOutcome_read {s : CharSet} {next : Nat} (h : a.Halts n p)
    (hn : a.state n = .read s next) :
    a.ownOutcome p n = (p.read s).bind fun q => a.outcome q next := by
  have hown : a.ownOutcome p n = a.outcome p n := by
    unfold ownOutcome
    rw [hn]
  rw [hown]
  exact Runs.outcome_eq (.read hn fun q hq => (h.of_read hn hq).runs)

theorem ownOutcome_accept (hn : a.state n = .accept) (p : Point) :
    a.ownOutcome p n = some p := by
  have hown : a.ownOutcome p n = a.outcome p n := by
    unfold ownOutcome
    rw [hn]
  rw [hown]
  exact Runs.outcome_eq (.accept hn)

theorem ownOutcome_look {condition : Look} {next : Nat} (hn : a.state n = .look condition next)
    (p : Point) : a.ownOutcome p n = none := by
  unfold ownOutcome
  rw [hn]

/-! ## Lists of states -/

/-- The list has the states that are listed where others are reached at a point, and among them comes
first what is found first. -/
structure Lists (a : Automaton) (p : Point) (states listed : List Nat) : Prop where
  mem : ∀ n, n ∈ listed ↔ a.IsListed n ∧ ∃ s ∈ states, ReflTransGen (a.Leads (holdsAt p)) s n
  first : (∀ n ∈ states, a.Halts n p) →
    listed.findSome? (a.ownOutcome p) = states.findSome? (a.outcome p)

theorem accepts_iff : a.accepts listed = true ↔ ∃ n ∈ listed, a.state n = .accept := by
  simp [accepts]

theorem exists_of_mem_follow (h : m ∈ a.follow c listed) :
    ∃ n ∈ listed, ∃ s, a.state n = .read s m ∧ s.contains c = true := by
  induction listed with
  | nil => cases h
  | cons n rest ih =>
      have hrest : m ∈ a.follow c rest →
          ∃ x ∈ n :: rest, ∃ s, a.state x = .read s m ∧ s.contains c = true := by
        intro hm
        obtain ⟨x, hx, hread⟩ := ih hm
        exact ⟨x, List.mem_cons_of_mem n hx, hread⟩
      unfold follow at h
      split at h
      · cases h
      · next s next hstate =>
          split at h
          · next hc =>
              obtain rfl | hm := List.mem_cons.1 h
              · exact ⟨n, List.mem_cons_self .., s, hstate, hc⟩
              · exact hrest hm
          · exact hrest h
      · exact hrest h

theorem mem_follow {s : CharSet} (haccepts : a.accepts listed = false) (hn : n ∈ listed)
    (hstate : a.state n = .read s m) (hc : s.contains c = true) : m ∈ a.follow c listed := by
  induction listed with
  | nil => cases hn
  | cons x rest ih =>
      have hfirst : a.state x ≠ .accept := by
        intro hx
        simp [accepts, hx] at haccepts
      have hrest : a.accepts rest = false := by
        simp only [accepts, List.any_cons, Bool.or_eq_false_iff] at haccepts
        exact haccepts.2
      unfold follow
      obtain rfl | hn := List.mem_cons.1 hn
      · simp [hstate, hc]
      · have hm := ih hrest hn
        split
        · next hx => exact absurd hx hfirst
        · split
          · exact List.mem_cons_of_mem _ hm
          · exact hm
        · exact hm

theorem findSome?_nil (hlisted : ∀ n ∈ listed, a.IsListed n ∧ a.Halts n ⟨before, []⟩) :
    listed.findSome? (a.ownOutcome ⟨before, []⟩) =
      if a.accepts listed then some ⟨before, []⟩ else none := by
  induction listed with
  | nil => rfl
  | cons n rest ih =>
      obtain ⟨⟨hn, hhalts⟩, hrest⟩ := List.forall_mem_cons.1 hlisted
      rw [findSome?_cons_or, ih hrest]
      cases hstate : a.state n with
      | accept => simp [ownOutcome_accept hstate, accepts, hstate]
      | read s next => simp [ownOutcome_read hhalts hstate, Point.read, accepts, hstate]
      | look condition next => simp [ownOutcome_look hstate, accepts, hstate]
      | _ => simp [IsListed, hstate] at hn

theorem findSome?_cons (hlisted : ∀ n ∈ listed, a.IsListed n ∧ a.Halts n ⟨before, c :: text⟩) :
    listed.findSome? (a.ownOutcome ⟨before, c :: text⟩) =
      ((a.follow c listed).findSome? (a.outcome ⟨some c, text⟩)).or
        (if a.accepts listed then some ⟨before, c :: text⟩ else none) := by
  induction listed with
  | nil => rfl
  | cons n rest ih =>
      obtain ⟨⟨hn, hhalts⟩, hrest⟩ := List.forall_mem_cons.1 hlisted
      rw [findSome?_cons_or, ih hrest]
      cases hstate : a.state n with
      | accept => simp [ownOutcome_accept hstate, follow, accepts, hstate]
      | read s next =>
          cases hc : s.contains c with
          | true =>
              simp [ownOutcome_read hhalts hstate, Point.read, follow, accepts, hstate, hc,
                findSome?_cons_or, Option.or_assoc]
          | false =>
              simp [ownOutcome_read hhalts hstate, Point.read, follow, accepts, hstate, hc]
      | look condition next => simp [ownOutcome_look hstate, follow, accepts, hstate]
      | _ => simp [IsListed, hstate] at hn

theorem halts_of_mem_follow (hlisted : ∀ n ∈ listed, a.IsListed n ∧ a.Halts n ⟨before, c :: text⟩)
    (hm : m ∈ a.follow c listed) : a.Halts m ⟨some c, text⟩ := by
  obtain ⟨n, hn, s, hstate, hc⟩ := exists_of_mem_follow hm
  exact (hlisted n hn).2.of_read hstate (by simp [Point.read, hc])

namespace Lists

theorem reach (a : Automaton) (p : Point) (states : List Nat) :
    a.Lists p states (a.reach (holdsAt p) states) where
  mem _ := mem_reach_iff
  first := findSome?_reach (values_ownOutcome a p) fun _ => id

theorem reaches_of_accepts (h : a.Lists p states listed) (haccepts : a.accepts listed = true) :
    ∃ s ∈ states, a.Reaches s p p := by
  obtain ⟨n, hn, hstate⟩ := accepts_iff.1 haccepts
  obtain ⟨_, s, hs, hpath⟩ := (h.mem n).1 hn
  exact ⟨s, hs, (Reaches.of_accept hstate p).of_leads hpath⟩

theorem reaches_of_follow (h : a.Lists p states listed) (hreads : p.Reads c p')
    (hreaches : ∃ s ∈ a.follow c listed, a.Reaches s p' q) : ∃ s ∈ states, a.Reaches s p q := by
  obtain ⟨m, hm, hleft⟩ := hreaches
  obtain ⟨n, hn, set, hstate, hc⟩ := exists_of_mem_follow hm
  obtain ⟨_, s, hs, hpath⟩ := (h.mem n).1 hn
  have hstep : a.Steps n p m p' := by
    simp only [Steps, hstate]
    exact ⟨trivial, c, hc, hreads⟩
  exact ⟨s, hs, (hleft.of_steps hstep).of_leads hpath⟩

theorem accepts_or_follow (h : a.Lists p states listed) (hreaches : ∃ s ∈ states, a.Reaches s p q) :
    a.accepts listed = true ∨
      ∃ c p', p.Reads c p' ∧ ∃ s ∈ a.follow c listed, a.Reaches s p' q := by
  obtain ⟨s, hs, hreach⟩ := hreaches
  obtain ⟨n, hpath, hcases⟩ := hreach.cases
  cases haccepts : a.accepts listed with
  | true => exact .inl rfl
  | false =>
      refine .inr ?_
      obtain hstate | ⟨set, next, c, p', hstate, hc, hreads, hleft⟩ := hcases
      · have hn := (h.mem n).2 ⟨by simp [IsListed, hstate], s, hs, hpath⟩
        rw [accepts_iff.2 ⟨n, hn, hstate⟩] at haccepts
        cases haccepts
      · have hn := (h.mem n).2 ⟨by simp [IsListed, hstate], s, hs, hpath⟩
        exact ⟨c, p', hreads, next, mem_follow haccepts hn hstate hc, hleft⟩

theorem halts (h : a.Lists p states listed) (hstates : ∀ n ∈ states, a.Halts n p)
    (hn : n ∈ listed) : a.IsListed n ∧ a.Halts n p := by
  obtain ⟨hlisted, s, hs, hpath⟩ := (h.mem n).1 hn
  exact ⟨hlisted, (hstates s hs).of_reflTransGen hpath⟩

end Lists

/-! ## Searches -/

/-- A path accepts at an end, counted from an offset where the rest of the text begins. -/
def EndsAt (a : Automaton) (states : List Nat) (p : Point) (offset e : Nat) : Prop :=
  ∃ s ∈ states, ∃ q, a.Reaches s p q ∧
    e + byteLength q.rest = offset + byteLength p.rest

def Ends (a : Automaton) (states : List Nat) (p : Point) : Prop :=
  ∃ q, ∃ s ∈ states, a.Reaches s p q

theorem Lists.endsAt_of_accepts (h : a.Lists p states listed) (haccepts : a.accepts listed = true)
    (offset : Nat) : a.EndsAt states p offset offset := by
  obtain ⟨s, hs, hreaches⟩ := h.reaches_of_accepts haccepts
  exact ⟨s, hs, p, hreaches, rfl⟩

theorem Lists.endsAt_of_follow (h : a.Lists p states listed) (hreads : p.Reads c p')
    (hends : a.EndsAt (a.follow c listed) p' (offset + c.utf8Size) e) :
    a.EndsAt states p offset e := by
  obtain ⟨m, hm, q, hreaches, hlength⟩ := hends
  obtain ⟨s, hs, hreaches⟩ := h.reaches_of_follow hreads ⟨m, hm, hreaches⟩
  refine ⟨s, hs, q, hreaches, ?_⟩
  rw [hlength, hreads.1, byteLength_cons]
  omega

theorem Lists.ends_cons (h : a.Lists ⟨before, c :: text⟩ states listed)
    (hends : a.Ends states ⟨before, c :: text⟩) :
    a.accepts listed = true ∨ a.Ends (a.follow c listed) ⟨some c, text⟩ := by
  obtain ⟨q, hends⟩ := hends
  obtain haccepts | ⟨d, ⟨_, _⟩, ⟨hrest, hbefore⟩, hleft⟩ := h.accepts_or_follow hends
  · exact .inl haccepts
  · cases hrest
    cases hbefore
    exact .inr ⟨q, hleft⟩

theorem Lists.accepts_of_ends_nil (h : a.Lists ⟨before, []⟩ states listed)
    (hends : a.Ends states ⟨before, []⟩) : a.accepts listed = true := by
  obtain ⟨q, hends⟩ := hends
  obtain haccepts | ⟨d, p', hreads, _⟩ := h.accepts_or_follow hends
  · exact haccepts
  · cases hreads.1

theorem Lists.not_ends_of_nil (h : a.Lists p states []) : ¬ a.Ends states p := by
  intro hends
  obtain ⟨q, hends⟩ := hends
  obtain haccepts | ⟨c, p', _, m, hm, _⟩ := h.accepts_or_follow hends
  · simp [accepts] at haccepts
  · cases hm

def offsetAt (offset : Nat) (p q : Point) : Nat := offset + byteLength p.rest - byteLength q.rest

/-- A search from states at a point, with the best end so far, ends well: it finds that end or one where
a path accepts, and it finds one if there is one. It is the one that is found first where all ways come
to an end. -/
structure Finds (a : Automaton) (states : List Nat) (p : Point) (offset : Nat)
    (best result : Option Nat) : Prop where
  sound : ∀ {e : Nat}, result = some e → best = some e ∨ a.EndsAt states p offset e
  complete : best.isSome = true ∨ a.Ends states p → result.isSome = true
  first : (∀ n ∈ states, a.Halts n p) →
    result = ((states.findSome? (a.outcome p)).map (offsetAt offset p)).or best

namespace Lists

theorem finds_of_empty (h : a.Lists p states []) (offset : Nat) (best : Option Nat) :
    a.Finds states p offset best best where
  sound := .inl
  complete hends := hends.resolve_right h.not_ends_of_nil
  first hstates := by
    rw [← h.first hstates]
    rfl

theorem best_sound (h : a.Lists p states listed)
    (hbest : (if a.accepts listed then some offset else best) = some e) :
    best = some e ∨ a.EndsAt states p offset e := by
  split at hbest
  · next haccepts =>
      cases hbest
      exact .inr (h.endsAt_of_accepts haccepts _)
  · exact .inl hbest

theorem finds_nil (h : a.Lists ⟨before, []⟩ states listed) (offset : Nat) (best : Option Nat) :
    a.Finds states ⟨before, []⟩ offset best (if a.accepts listed then some offset else best) where
  sound := h.best_sound
  complete hends := by
    split
    · rfl
    · next haccepts =>
        exact hends.resolve_right fun hends => haccepts (h.accepts_of_ends_nil hends)
  first hstates := by
    rw [← h.first hstates, findSome?_nil fun n => h.halts hstates]
    split <;> simp [offsetAt]

theorem finds_cons (h : a.Lists ⟨before, c :: text⟩ states listed) {result : Option Nat}
    (hrest : a.Finds (a.follow c listed) ⟨some c, text⟩ (offset + c.utf8Size)
      (if a.accepts listed then some offset else best) result) :
    a.Finds states ⟨before, c :: text⟩ offset best result where
  sound he := by
    obtain hbest | hends := hrest.sound he
    · exact h.best_sound hbest
    · exact .inr (h.endsAt_of_follow ⟨rfl, rfl⟩ hends)
  complete hends := by
    refine hrest.complete ?_
    split
    · exact .inl rfl
    · next haccepts => exact hends.imp_right fun hends => (h.ends_cons hends).resolve_left haccepts
  first hstates := by
    have hlisted : ∀ n ∈ listed, a.IsListed n ∧ a.Halts n ⟨before, c :: text⟩ :=
      fun n => h.halts hstates
    rw [← h.first hstates, findSome?_cons hlisted,
      hrest.first fun m => halts_of_mem_follow hlisted]
    have hoffset : offsetAt (offset + c.utf8Size) ⟨some c, text⟩ =
        offsetAt offset ⟨before, c :: text⟩ := by
      funext q
      simp only [offsetAt, byteLength_cons, Nat.add_assoc]
    rw [hoffset]
    cases (a.follow c listed).findSome? (a.outcome ⟨some c, text⟩) with
    | none => split <;> simp [offsetAt]
    | some q => rfl

end Lists

theorem searchFrom_finds (before : Option Char) (states : List Nat) (offset : Nat)
    (best : Option Nat) (text : List Char) :
    a.Finds states ⟨before, text⟩ offset best
      (a.searchFrom (a.reach (holdsAt ⟨before, text⟩) states) offset best text) := by
  induction text generalizing states before offset best with
  | nil => exact (Lists.reach a ⟨before, []⟩ states).finds_nil offset best
  | cons c rest ih =>
      have hlists := Lists.reach a ⟨before, c :: rest⟩ states
      generalize a.reach (holdsAt ⟨before, c :: rest⟩) states = listed at hlists ⊢
      unfold searchFrom
      split
      · next hempty =>
          rw [List.isEmpty_iff.1 hempty] at hlists
          exact hlists.finds_of_empty offset best
      · exact hlists.finds_cons (ih _ _ _ _)

theorem lists_resolve (a : Automaton) (before : Option Char) (text : List Char)
    (states : List Nat) :
    a.Lists ⟨before, text⟩ states
      (a.resolve before text.head? (a.reach (·.holdsAfter before) states)) := by
  have hholds : ∀ condition : Look, condition.holdsAfter before = true →
      holdsAt ⟨before, text⟩ condition = true :=
    fun _ h => Look.holds_of_holdsAfter h _
  rw [resolve_reach]
  split
  · refine ⟨fun n => mem_reach_reach_iff hholds, fun hstates => ?_⟩
    have hreached : ∀ n ∈ a.reach (·.holdsAfter before) states, a.Halts n ⟨before, text⟩ := by
      intro n hn
      obtain ⟨_, s, hs, hpath⟩ := mem_reach_iff.1 hn
      exact (hstates s hs).of_reflTransGen
        (ReflTransGen.mono (fun _ _ hleads => hleads.mono hholds) _ _ hpath)
    rw [← findSome?_reach (fun _ => .inl rfl) hholds hstates]
    exact (Lists.reach a ⟨before, text⟩ _).first hreached
  · exact Lists.reach a ⟨before, text⟩ states

theorem searchAheadFrom_finds {plain : Char → Bool} {matched : Bool} {result : Option Nat}
    (h : a.searchAheadFrom plain (a.reach (·.holdsAfter before) states) before matched offset best
      text = some result) :
    a.Finds states ⟨before, text⟩ offset best result := by
  induction text generalizing states before matched offset best with
  | nil =>
      cases h
      exact (lists_resolve a before [] states).finds_nil offset best
  | cons c rest ih =>
      have hlists := lists_resolve a before (c :: rest) states
      unfold searchAheadFrom at h
      split at h
      · next hempty =>
          cases h
          rw [List.isEmpty_iff.1 (Bool.and_eq_true_iff.1 hempty).1] at hlists
          exact hlists.finds_of_empty offset _
      · split at h
        · cases h
        · exact hlists.finds_cons (ih h)

/-- The end of a match is one where a path from the start accepts, and there is one if there is such
a path. -/
theorem findEnd_finds (a : Automaton) (text : List Char) :
    a.Finds [a.start] (.start text) 0 none (a.findEnd text) := by
  unfold findEnd
  split
  · next result hahead => exact searchAheadFrom_finds hahead
  · exact searchFrom_finds none [a.start] 0 none text

end Peg.Automaton
