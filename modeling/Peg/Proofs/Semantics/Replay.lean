import Peg.Proofs.Semantics.Adequacy

/-!
# Runs with a memo follow runs without one

Two runs of the same rules from the same place, one with a memo and one without: as long as the one
without exceeds no limit, neither does the other, and both find the same and get equally far
(`State.Shadows.run`). What a run with a memo found is in the memo from then on
(`Library.recorded_of_run`).
-/

namespace Peg

/-- The state `t`, which may have a memo, is where the state `s` without one is, and has made no
more calls. -/
structure State.Shadows (lib : Library) (s t : State) : Prop where
  ready : lib.Ready s
  ready' : lib.Ready t
  memo : s.memo = none
  unlimited : t.cursor.reachedLimit = false
  source : t.cursor.source = s.cursor.source
  place : t.place = s.place
  furthest : t.cursor.furthest = s.cursor.furthest
  callLimit : t.cursor.calls.limit = s.cursor.calls.limit
  made : t.cursor.calls.made ≤ s.cursor.calls.made
  nestingLimit : t.cursor.nesting.limit = s.cursor.nesting.limit
  depth : t.cursor.nesting.depth = s.cursor.nesting.depth

namespace State.Shadows

variable {lib : Library} {s t : State}

theorem start {cursor : Cursor} (hplace : cursor.place.IsIn cursor.source)
    (hunlimited : cursor.reachedLimit = false) (memoize : Bool) :
    State.Shadows lib (.start cursor false) (.start cursor memoize) where
  ready := Library.ready_start hplace false
  ready' := Library.ready_start hplace memoize
  memo := rfl
  unlimited := hunlimited
  source := rfl
  place := rfl
  furthest := rfl
  callLimit := rfl
  made := Nat.le_refl _
  nestingLimit := rfl
  depth := rfl

theorem moveTo (h : State.Shadows lib s t) {p : Place} (hp : p.IsIn s.cursor.source) :
    State.Shadows lib (s.moveTo p) (t.moveTo p) := by
  have hp' : p.IsIn t.cursor.source := by
    rw [h.source]
    exact hp
  exact { h with ready := h.ready.moveTo hp, ready' := h.ready'.moveTo hp', place := rfl }

theorem room_eq (h : State.Shadows lib s t) :
    t.cursor.nesting.room = s.cursor.nesting.room := by
  unfold Nesting.room
  rw [h.nestingLimit, h.depth]

theorem affords (h : State.Shadows lib s t) {r : RuleRef} {e : Extent}
    (hreached : (lib.run r s).2.cursor.reachedLimit = false)
    (hspends : s.Spends s.cursor.nesting.room (lib.run r s).2 e) :
    t.Affords t.cursor.nesting.room e := by
  refine ⟨h.unlimited, ?_, fun limit hlimit => ?_⟩
  · rw [h.room_eq]
    exact hspends.height h.memo
  · rw [h.callLimit] at hlimit
    have hle : (lib.run r s).2.cursor.calls.made ≤ limit :=
      Library.made_le_of_exec h.memo hreached limit hlimit
    have hmade := hspends.made h.memo
    have hmade' := h.made
    omega

/-- The run without a memo tells the extent of the outcome, and by that the run with a memo finds
the same outcome. -/
theorem run (hclosed : lib.Closed) (h : State.Shadows lib s t) {r : RuleRef} (hr : lib.Knows r)
    (hreached : (lib.run r s).2.cursor.reachedLimit = false) :
    (lib.run r t).1 = (lib.run r s).1 ∧ State.Shadows lib (lib.run r s).2 (lib.run r t).2 := by
  have hs := Library.run_follows hclosed hr h.ready
  have ht := Library.run_follows hclosed hr h.ready'
  have hslater := lib.run_forward r s
  have htlater := lib.run_forward r t
  obtain ⟨e, he, hspends⟩ := hs.leads.means hreached
  have he' : lib.Yields r t.place (lib.run r s).1 e := by
    rw [h.place]
    exact he
  obtain ⟨hfound, hwithin⟩ :=
    (lib.exec_finds hclosed _).finds r t _ e h.ready' he' (h.affords hreached hspends)
  have hout : (lib.run r t).1 = (lib.run r s).1 := hfound
  -- both extents are that of the one outcome, so both runs have got equally far
  obtain ⟨e', hyields, hspends'⟩ := ht.leads.means hwithin.unlimited
  obtain ⟨-, rfl⟩ := Library.Yields.unique hyields he'
  refine ⟨hout, ?_⟩
  constructor
  · exact hs.leads.ready
  · exact ht.leads.ready
  · exact hslater.memo_eq_none h.memo
  · exact hwithin.unlimited
  · rw [htlater.source, hslater.source, h.source]
  · rw [ht.place, hs.place, hout, h.place]
  · rw [hspends'.furthest, hspends.furthest, h.furthest]
  · rw [htlater.callLimit, hslater.callLimit, h.callLimit]
  · rw [hspends.made h.memo]
    exact Nat.le_trans hwithin.made (Nat.add_le_add_right h.made _)
  · rw [htlater.nestingLimit, hslater.nestingLimit, h.nestingLimit]
  · rw [htlater.depth, hslater.depth, h.depth]

end State.Shadows

/-! ## What is recorded -/

theorem Exec.recorded_of_memoized {exec : Exec} (h : exec.Forward) {r : RuleRef} {s : State}
    (hmemo : s.memo.isSome = true)
    (hreached : (Exec.memoized exec r s).2.cursor.reachedLimit = false) :
    ∃ memo, (Exec.memoized exec r s).2.memo = some memo ∧
      memo.outcome? r s.place.offset = some (Exec.memoized exec r s).1 := by
  obtain ⟨memo, hmemo⟩ := Option.isSome_iff_exists.1 hmemo
  rcases hhit : memo.outcome? r s.place.offset with _ | _ | d
  · have hlater := h r s.countMiss
    rw [Exec.memoized_of_miss hmemo hhit] at hreached ⊢
    have hsome : (exec r s.countMiss).2.memo.isSome = true := by
      rw [hlater.memo]
      simp [State.countMiss, hmemo]
    obtain ⟨memo', hmemo'⟩ := Option.isSome_iff_exists.1 hsome
    rw [State.learn_cursor] at hreached
    rw [State.learn_of_unlimited _ _ _ hreached]
    refine ⟨memo'.record r s.place.offset (exec r s.countMiss).1, ?_, ?_⟩
    · simp [State.remember, hmemo']
    · simp [Memo.outcome?, Memo.record]
  · rw [Exec.memoized_of_failure_hit hmemo hhit]
    exact ⟨memo.countFailureHit, by simp [State.countFailureHit, hmemo], hhit⟩
  · rw [Exec.memoized_of_hit hmemo hhit]
    exact ⟨memo.countHit, by simp [State.advanceTo, State.noteReplay, hmemo], hhit⟩

/-- A run with a memo that exceeds no limit leaves its outcome recorded. -/
theorem Library.recorded_of_run {lib : Library} {r : RuleRef} {s : State}
    (hmemo : s.memo.isSome = true) (hreached : (lib.run r s).2.cursor.reachedLimit = false) :
    ∃ memo, (lib.run r s).2.memo = some memo ∧
      memo.outcome? r s.place.offset = some (lib.run r s).1 := by
  obtain ⟨inner, hexec, hinner⟩ := lib.exec_eq_memoized s.cursor.nesting.room
  unfold Library.run at hreached ⊢
  rw [hexec] at hreached ⊢
  exact Exec.recorded_of_memoized (Exec.Forward.limited hinner) hmemo hreached

end Peg
