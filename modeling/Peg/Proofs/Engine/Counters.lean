import Peg.Proofs.Engine.Moments
import Peg.Proofs.Engine.Tally

/-!
# The counters of the memo, step by step

Only a step that asks the memo counts anything, and then one of the three counters goes up by one. So
at every moment of a run the counters are at most as many in all as the executions that the run asks
for, and none of them overflows where these fit into 64 bits. Main statement:
`Library.total_le_asked`.
-/

namespace Peg

/-- One of the counters goes up by one, or none does. -/
inductive MemoStats.CountsTo (m : MemoStats) : MemoStats → Prop
  | nothing : CountsTo m m
  | hit : CountsTo m { m with hits := m.hits + 1 }
  | failureHit : CountsTo m { m with failureHits := m.failureHits + 1 }
  | miss : CountsTo m { m with misses := m.misses + 1 }

theorem MemoStats.CountsTo.total_le {m m' : MemoStats} (h : m.CountsTo m') :
    m.total ≤ m'.total := by
  cases h <;> simp only [total] <;> omega

namespace Moment

section Steps

variable (stack : List Frame) (s : State) (r : RuleRef)

theorem state_parts (rest : List RuleRef) (done : List Derivation) :
    (parts stack s r rest done).state = s := by
  cases rest <;> rfl

theorem state_options (rest : List RuleRef) : (options stack s r rest).state = s := by
  cases rest <;> rfl

theorem state_rounds (body : RuleRef) (least : Nat) (most : Option Nat) (unread : List Char)
    (count : Nat) (done : List Derivation) :
    (rounds stack s r body least most unread count done).state = s := by
  unfold rounds
  split <;> rfl

theorem state_perform (kind : Kind RuleRef) : (perform stack s r kind).state = s := by
  cases kind with
  | sequence children => exact state_parts stack s r _ _
  | choice children => exact state_options stack s r _
  | rep body least most => exact state_rounds stack s r _ _ _ _ _ _
  | _ => rfl

theorem stats_resume (outcome : Option Derivation) (frame : Frame) :
    (resume stack s outcome frame).state.stats = s.stats := by
  cases frame with
  | leave start => exact Exec.Counts.settle_stats s start outcome
  | record r offset => exact s.stats_learn r offset outcome
  | back place => rfl
  | wrap r => rfl
  | parts r rest done =>
      cases outcome with
      | none => rfl
      | some d => exact congrArg State.stats (state_parts stack s r rest (d :: done))
  | options r rest =>
      cases outcome with
      | none => exact congrArg State.stats (state_options stack s r rest)
      | some d => rfl
  | rounds r body least most unread count done =>
      cases outcome with
      | none => rfl
      | some d =>
          simp only [resume]
          split
          · rfl
          · cases unread with
            | nil => rfl
            | cons c unread => exact congrArg State.stats (state_rounds stack s r _ _ _ _ _ _)
  | look r ahead => rfl
  | scan r stop start rest passed =>
      cases outcome with
      | some d => rfl
      | none => cases rest <;> rfl

end Steps

end Moment

namespace Library

variable {lib : Library} {m m' : Moment}

theorem countsTo_of_next (h : lib.next m = some m') : m.state.stats.CountsTo m'.state.stats := by
  obtain ⟨phase, stack, s⟩ := m
  cases phase with
  | consult r =>
      cases hmemo : s.memo with
      | none =>
          simp only [next, hmemo, Option.some.injEq] at h
          subst h
          exact .nothing
      | some memo =>
          have hs : s.memo.isSome := Option.isSome_iff_exists.2 ⟨memo, hmemo⟩
          rcases hhit : memo.outcome? r s.place.offset with _ | _ | d
          all_goals
            simp only [next, hmemo, hhit, Option.some.injEq] at h
            subst h
          · rw [State.stats_countMiss hs]
            exact .miss
          · rw [State.stats_countFailureHit hs]
            exact .failureHit
          · change s.stats.CountsTo (s.noteReplay r s.place.offset).stats
            rw [State.stats_noteReplay r _ hs]
            exact .hit
  | charge r =>
      simp only [next] at h
      split at h <;> cases h <;> exact .nothing
  | enter r =>
      simp only [next] at h
      split at h
      · cases h
        exact .nothing
      · cases hrule : lib.rule? r <;> rw [hrule] at h <;> cases h <;> exact .nothing
  | perform r kind =>
      cases h
      rw [Moment.state_perform]
      exact .nothing
  | handBack outcome =>
      cases stack with
      | nil => cases h
      | cons frame stack =>
          cases h
          rw [Moment.stats_resume]
          exact .nothing

theorem total_le_of_precedes (h : lib.Precedes m m') :
    m.state.stats.total ≤ m'.state.stats.total := by
  induction h with
  | refl => exact Nat.le_refl _
  | tail _ hnext ih => exact ih.trans (countsTo_of_next hnext).total_le

theorem precedes_last {last : State} {outcome : Option Derivation}
    (hlast : lib.Precedes m ⟨.handBack outcome, [], last⟩) (h : lib.Precedes m m') :
    lib.Precedes m' ⟨.handBack outcome, [], last⟩ := by
  rcases StateTransition.reaches_total h hlast with hbefore | hbehind
  · exact hbefore
  · -- there is no step from the last moment on
    rcases Relation.ReflTransGen.cases_head hbehind with heq | ⟨_, hnext, -⟩
    · exact heq ▸ .refl _
    · cases hnext

/-- At every moment of a run from a state without counts the memo has counted no more than the
executions that the run asks for. -/
theorem total_le_asked {s : State} (hs : s.stats = {}) {r : RuleRef}
    (h : lib.Precedes ⟨.consult r, [], s⟩ m) :
    m.state.stats.total ≤ lib.asked s.cursor.nesting.room r s := by
  have hle := total_le_of_precedes (precedes_last (lib.precedes_run r [] s) h)
  have hcounts := lib.total_exec s.cursor.nesting.room
  refine hle.trans ?_
  cases hmemo : s.memo.isSome with
  | true =>
      have htotal := hcounts.total r s hmemo
      rw [hs] at htotal
      exact htotal.le.trans_eq (Nat.zero_add _)
  | false =>
      have hnone : (lib.run r s).2.memo.isSome = false := (hcounts.forward r s).memo.trans hmemo
      rw [Option.isSome_eq_false_iff, Option.isNone_iff_eq_none] at hnone
      change (lib.run r s).2.stats.total ≤ _
      rw [State.stats, hnone]
      exact Nat.zero_le _

end Library

end Peg
