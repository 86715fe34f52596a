import Peg.Proofs.Engine.Later

/-!
# How many executions a run asks for

A tally counts the executions that a run asks for, those that the memo answers as well as those that
a limit refuses. It goes by the run itself, loop by loop. With a memo every execution is counted in
its statistics, once: as a match replayed, as a failure replayed or as an outcome to be recorded
(`Library.total_exec`).
-/

namespace Peg

def MemoStats.total (m : MemoStats) : Nat := m.hits + m.failureHits + m.misses

/-- The statistics after an outcome that was recorded is answered. -/
def MemoStats.answered (m : MemoStats) : Option Derivation → MemoStats
  | none => { m with failureHits := m.failureHits + 1 }
  | some _ => { m with hits := m.hits + 1 }

def State.stats (s : State) : MemoStats := s.memo.elim {} Memo.stats

namespace State

variable (s : State) (r : RuleRef) (offset : Nat) (outcome : Option Derivation)

theorem stats_remember : (s.remember r offset outcome).stats = s.stats := by
  obtain ⟨cursor, memo, replays⟩ := s
  cases memo <;> rfl

theorem stats_learn : (s.learn r offset outcome).stats = s.stats := by
  unfold learn
  split
  · rfl
  · exact stats_remember s r offset outcome

theorem stats_countMiss {s : State} (hs : s.memo.isSome) :
    s.countMiss.stats = { s.stats with misses := s.stats.misses + 1 } := by
  obtain ⟨memo, hmemo⟩ := Option.isSome_iff_exists.1 hs
  simp [stats, countMiss, hmemo, Memo.countMiss]

theorem stats_countFailureHit {s : State} (hs : s.memo.isSome) :
    s.countFailureHit.stats = { s.stats with failureHits := s.stats.failureHits + 1 } := by
  obtain ⟨memo, hmemo⟩ := Option.isSome_iff_exists.1 hs
  simp [stats, countFailureHit, hmemo, Memo.countFailureHit]

theorem stats_noteReplay {s : State} (hs : s.memo.isSome) :
    (s.noteReplay r offset).stats = { s.stats with hits := s.stats.hits + 1 } := by
  obtain ⟨cursor, memo, replays⟩ := s
  obtain ⟨memo, rfl⟩ := Option.isSome_iff_exists.1 hs
  rfl

end State

/-- How many executions the run of a rule from a state asks for, itself among them. -/
abbrev Tally := RuleRef → State → Nat

namespace Tally

/-! ## The tallies of the loops

Each follows a loop over `exec`, given the tally of `exec` itself. -/

def all (tally : Tally) (exec : Exec) : List RuleRef → State → Nat
  | [], _ => 0
  | r :: rs, s =>
    tally r s + if (exec r s).1.isSome then tally.all exec rs (exec r s).2 else 0

def firstOf (tally : Tally) (exec : Exec) : List RuleRef → State → Nat
  | [], _ => 0
  | r :: rs, s =>
    tally r s + if (exec r s).1.isSome then 0 else tally.firstOf exec rs (exec r s).2

def repeated (tally : Tally) (exec : Exec) (r : RuleRef) (most : Option Nat) :
    List Char → Nat → State → Nat
  | unread, count, s =>
    if most = some count then 0
    else
      tally r s +
        match (exec r s).1, unread with
        | some d, _ :: unread =>
          if d.length = 0 then 0 else tally.repeated exec r most unread (count + 1) (exec r s).2
        | _, _ => 0

def upTo (tally : Tally) (exec : Exec) (stop : RuleRef) : List Char → State → Nat
  | rest, s =>
    tally stop s +
      match (exec stop s).1, rest with
      | none, c :: rest =>
        tally.upTo exec stop rest ((exec.test stop s).2.moveTo (s.place.past c rest))
      | _, _ => 0

def perform (tally : Tally) (exec : Exec) (r : RuleRef) (s : State) : Kind RuleRef → Nat
  | .terminal _ | .text _ _ => 0
  | .sequence parts => tally.all exec (parts.map r.sibling) s
  | .choice options => tally.firstOf exec (options.map r.sibling) s
  | .rep body _ most => tally.repeated exec (r.sibling body) most s.place.rest 0 s
  | .ahead body | .notAhead body => tally (r.sibling body) s
  | .upTo stop => tally.upTo exec (r.sibling stop) s.place.rest s
  | .ref _ target | .inherited _ target => tally target s
  | .label body => tally (r.sibling body) s

/-- Inside an execution, if the limits allow it. -/
def limited (lib : Library) (inner : Option (Tally × Exec)) : Tally := fun r s =>
  if s.cursor.calls.isSpent || s.cursor.nesting.exceeded then 0
  else
    match inner, lib.rule? r with
    | some (tally, exec), some rule => tally.perform exec r s.spendCall.enter rule.kind
    | _, _ => 0

def memoized (tally : Tally) : Tally := fun r s =>
  match s.memo.bind (·.outcome? r s.place.offset) with
  | some _ => 1
  | none => tally r s.countMiss + 1

end Tally

/-- The executions asked for with room for so many nested inside each other. -/
def Library.asked (lib : Library) : Nat → Tally
  | 0 => .memoized (.limited lib none)
  | room + 1 => .memoized (.limited lib (some (lib.asked room, lib.exec room)))

/-! ## The statistics count what is asked for -/

namespace Exec

/-- Executions raise the statistics by what their tally says, as far as there is a memo. -/
structure Counts (tally : Tally) (exec : Exec) : Prop where
  forward : exec.Forward
  total : ∀ r s, s.memo.isSome → (exec r s).2.stats.total = s.stats.total + tally r s

namespace Counts

variable {tally : Tally} {exec : Exec}

theorem test (h : Counts tally exec) (r : RuleRef) {s : State} (hs : s.memo.isSome) :
    (exec.test r s).2.stats.total = s.stats.total + tally r s :=
  h.total r s hs

theorem memo (h : Counts tally exec) (r : RuleRef) {s : State} (hs : s.memo.isSome) :
    (exec r s).2.memo.isSome := by
  rw [(h.forward r s).memo]
  exact hs

theorem all (h : Counts tally exec) (rs : List RuleRef) {s : State} (hs : s.memo.isSome) :
    (exec.all rs s).2.stats.total = s.stats.total + tally.all exec rs s := by
  induction rs generalizing s with
  | nil => rfl
  | cons r rs ih =>
      cases hout : (exec r s).1 with
      | none =>
          rw [Exec.all_cons_none rs hout, h.total r s hs, Tally.all, hout]
          rfl
      | some d =>
          rw [Exec.all_cons_some rs hout, ih (h.memo r hs), h.total r s hs, Tally.all, hout,
            Nat.add_assoc]
          rfl

theorem firstOf (h : Counts tally exec) (rs : List RuleRef) {s : State} (hs : s.memo.isSome) :
    (exec.firstOf rs s).2.stats.total = s.stats.total + tally.firstOf exec rs s := by
  induction rs generalizing s with
  | nil => rfl
  | cons r rs ih =>
      cases hout : (exec r s).1 with
      | none =>
          rw [Exec.firstOf_cons_none rs hout, ih (h.memo r hs), h.total r s hs, Tally.firstOf, hout,
            Nat.add_assoc]
          rfl
      | some d =>
          rw [Exec.firstOf_cons_some rs hout, h.total r s hs, Tally.firstOf, hout]
          rfl

theorem repeated (h : Counts tally exec) (r : RuleRef) (least : Nat) (most : Option Nat)
    (unread : List Char) (count : Nat) (done : List Derivation) {s : State}
    (hs : s.memo.isSome) :
    (exec.repeated r least most unread count done s).2.stats.total =
      s.stats.total + tally.repeated exec r most unread count s := by
  by_cases hmost : most = some count
  · rw [Exec.repeated_full unread done hmost]
    unfold Tally.repeated
    rw [if_pos hmost]
    rfl
  unfold Tally.repeated
  rw [if_neg hmost, ← Nat.add_assoc, ← h.total r s hs]
  cases hout : (exec r s).1 with
  | none =>
      rw [Exec.repeated_none unread done hmost hout]
      rfl
  | some d =>
      by_cases hd : d.length = 0
      · rw [Exec.repeated_empty unread done hmost hout hd]
        cases unread <;> simp [hd]
      cases unread with
      | nil =>
          rw [Exec.repeated_nil done hmost hout hd]
          rfl
      | cons c unread =>
          rw [Exec.repeated_cons c unread done hmost hout hd]
          simp only [hd, if_false]
          exact repeated h r least most unread (count + 1) (d :: done) (h.memo r hs)

theorem upTo (h : Counts tally exec) (stop : RuleRef) (rest : List Char) (passed : Nat) {s : State}
    (hs : s.memo.isSome) :
    (exec.upTo stop rest passed s).2.stats.total =
      s.stats.total + tally.upTo exec stop rest s := by
  unfold Tally.upTo
  rw [← Nat.add_assoc, ← h.test stop hs]
  cases hout : (exec stop s).1 with
  | some d =>
      rw [Exec.upTo_found rest passed hout]
      cases rest <;> rfl
  | none =>
      cases rest with
      | nil =>
          rw [Exec.upTo_nil passed hout]
          rfl
      | cons c rest =>
          rw [Exec.upTo_cons c rest passed hout]
          exact upTo h stop rest (passed + c.utf8Size) (h.memo stop hs)

theorem perform (h : Counts tally exec) (r : RuleRef) {s : State} (hs : s.memo.isSome)
    (kind : Kind RuleRef) :
    (exec.perform r s kind).2.stats.total = s.stats.total + tally.perform exec r s kind := by
  cases kind with
  | terminal _ | text _ _ => rfl
  | sequence parts => exact h.all _ hs
  | choice options => exact h.firstOf _ hs
  | rep body least most => exact h.repeated _ least most _ 0 [] hs
  | ahead body | notAhead body => exact h.test _ hs
  | upTo stop => exact h.upTo _ _ 0 hs
  | ref _ target | inherited _ target => exact h.total target s hs
  | label body => exact h.total _ s hs

theorem settle_stats (s : State) (p : Place) (outcome : Option Derivation) :
    (s.leave.settle p outcome).2.stats = s.stats := by
  cases outcome <;> rfl

theorem total_limited {lib : Library} {inner : Option (Tally × Exec)}
    (h : ∀ pair ∈ inner, Counts pair.1 pair.2) (r : RuleRef) {s : State} (hs : s.memo.isSome) :
    (Exec.limited lib (inner.map (·.2)) r s).2.stats.total =
      s.stats.total + Tally.limited lib inner r s := by
  unfold Tally.limited
  cases hcalls : s.cursor.calls.isSpent with
  | true =>
      rw [Exec.limited_of_isSpent _ hcalls]
      rfl
  | false =>
      cases hnesting : s.cursor.nesting.exceeded with
      | true =>
          cases inner with
          | none =>
              rw [Option.map_none, Exec.limited_none hcalls]
              rfl
          | some pair =>
              rw [Option.map_some, Exec.limited_of_exceeded hcalls hnesting]
              rfl
      | false =>
          cases inner with
          | none =>
              rw [Option.map_none, Exec.limited_none hcalls]
              rfl
          | some pair =>
              cases hrule : lib.rule? r with
              | none =>
                  rw [Option.map_some, Exec.limited_of_rule_none hcalls hnesting hrule]
                  rfl
              | some rule =>
                  have hs' : s.spendCall.enter.memo.isSome := hs
                  rw [Option.map_some, Exec.limited_of_rule hcalls hnesting hrule, settle_stats,
                    (h pair rfl).perform r hs' rule.kind]
                  rfl

theorem memoized {exec : Exec} {tally : Tally} (hforward : exec.Forward)
    (htotal : ∀ r s, s.memo.isSome → (exec r s).2.stats.total = s.stats.total + tally r s) :
    Counts tally.memoized (Exec.memoized exec) where
  forward := hforward.memoized
  total r s hs := by
    obtain ⟨memo, hmemo⟩ := Option.isSome_iff_exists.1 hs
    unfold Tally.memoized
    rw [hmemo, Option.bind_some]
    rcases hhit : memo.outcome? r s.place.offset with _ | _ | d
    · have hmiss : s.countMiss.memo.isSome := by simp [State.countMiss, hmemo]
      rw [Exec.memoized_of_miss hmemo hhit, State.stats_learn, htotal r _ hmiss,
        State.stats_countMiss hs]
      simp only [MemoStats.total]
      omega
    · rw [Exec.memoized_of_failure_hit hmemo hhit, State.stats_countFailureHit hs]
      simp only [MemoStats.total]
      omega
    · rw [Exec.memoized_of_hit hmemo hhit]
      change (s.noteReplay r s.place.offset).stats.total = _
      rw [State.stats_noteReplay r _ hs]
      simp only [MemoStats.total]
      omega

end Counts

end Exec

/-- With a memo the statistics count every execution that a run asks for. -/
theorem Library.total_exec (lib : Library) (room : Nat) :
    Exec.Counts (lib.asked room) (lib.exec room) := by
  induction room with
  | zero =>
      have hnone : ∀ pair ∈ (none : Option (Tally × Exec)), Exec.Counts pair.1 pair.2 :=
        fun _ h => by cases h
      exact .memoized (Exec.Forward.limited fun _ h => by cases h) fun r _ hs =>
        Exec.Counts.total_limited hnone r hs
  | succ room ih =>
      have hsome : ∀ pair ∈ some (lib.asked room, lib.exec room), Exec.Counts pair.1 pair.2 := by
        intro pair h
        cases h
        exact ih
      exact .memoized (Exec.Forward.limited fun _ h => by cases h; exact ih.forward) fun r _ hs =>
        Exec.Counts.total_limited hsome r hs

end Peg
