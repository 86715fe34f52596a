import Peg.Engine.Session
import Peg.Proofs.Semantics.Replay

/-!
# Whole sessions

A session takes steps in any order: it runs rules with the memo and past it, moves the cursor,
starts again, and goes on after a limit was exceeded. Whatever the steps and the limits are, the
memo stays right (`Session.Valid.performAll`): it only holds outcomes that a run without a memo and
without a limit on the executions finds as soon as they may nest deep enough.
-/

namespace Peg

namespace Session

/-- Takes steps one after the other and tells the lengths of the matches. -/
def performAll (lib : Library) : Session → List Step → List (Option Nat) × Session
  | s, [] => ([], s)
  | s, step :: steps =>
    ((s.perform lib step).1 :: ((s.perform lib step).2.performAll lib steps).1,
      ((s.perform lib step).2.performAll lib steps).2)

/-- The rule that a step runs, if it runs one, is a rule of the library. -/
def Step.Knows (lib : Library) : Step → Prop
  | .exec r | .test r | .bare r => lib.Knows r
  | .moveTo _ | .reset | .clear | .renew => True

/-- The session reads the text, and its memo says nothing wrong about it. -/
structure Valid (lib : Library) (text : List Char) (s : Session) : Prop where
  source : s.state.cursor.source = text
  start : s.state.cursor.start.IsIn text
  ready : lib.Ready s.state

variable {lib : Library} {text : List Char} {s : Session}

theorem valid_start {cursor : Cursor} (hplace : cursor.place.IsIn cursor.source)
    (hstart : cursor.start.IsIn cursor.source) (memoize : Bool) :
    (start cursor memoize).Valid lib cursor.source where
  source := rfl
  start := hstart
  ready := Library.ready_start hplace memoize

theorem collect_state (events : Array Event) (result : Option Derivation × State) :
    (collect events result).2.state = result.2 := by
  obtain ⟨outcome, state⟩ := result
  cases outcome <;> rfl

theorem perform_exec_state (s : Session) (r : RuleRef) :
    (s.perform lib (.exec r)).2.state = (lib.run r s.state).2 :=
  collect_state s.events (lib.run r s.state)

theorem perform_bare_state (s : Session) (r : RuleRef) :
    (s.perform lib (.bare r)).2.state = (lib.runBare r s.state).2 :=
  collect_state s.events (lib.runBare r s.state)

theorem later_perform {step : Step} (hstep : step ≠ .reset) (s : Session) :
    s.state.Later (s.perform lib step).2.state := by
  cases step with
  | exec r =>
      rw [perform_exec_state]
      exact lib.run_forward r s.state
  | test r => exact (lib.run_forward r s.state).trans (State.later_moveTo _ _)
  | bare r =>
      rw [perform_bare_state]
      exact lib.runBare_forward r s.state
  | moveTo offset =>
      cases hat : Place.at? s.state.cursor.source offset with
      | none =>
          simp only [Session.perform, hat]
          exact State.Later.refl _
      | some p =>
          simp only [Session.perform, hat]
          exact State.later_moveTo _ _
  | reset => exact absurd rfl hstep
  | clear => exact State.Later.refl _
  | renew => exact State.later_renew s.state

theorem ready_perform (hclosed : lib.Closed) (h : s.Valid lib text) {step : Step}
    (hstep : step.Knows lib) : lib.Ready (s.perform lib step).2.state := by
  have hready := h.ready
  cases step with
  | exec r =>
      rw [perform_exec_state]
      exact (Library.run_follows hclosed hstep hready).leads.ready
  | test r =>
      refine (Library.run_follows hclosed hstep hready).leads.ready.moveTo ?_
      rw [(lib.run_forward r s.state).source]
      exact hready.place
  | bare r =>
      obtain ⟨rule, hrule⟩ := Option.isSome_iff_exists.1 hstep
      have hbare : lib.runBare r s.state =
          (lib.exec s.state.cursor.nesting.room).perform r s.state rule.kind := by
        simp only [Library.runBare, hrule]
      obtain ⟨-, hleads⟩ :=
        (lib.exec_sound hclosed s.state.cursor.nesting.room).perform
          (hclosed.targets r rule hrule) hready
      rw [perform_bare_state, hbare]
      exact hleads.ready
  | moveTo offset =>
      cases hat : Place.at? s.state.cursor.source offset with
      | none =>
          simp only [Session.perform, hat]
          exact hready
      | some p =>
          obtain ⟨hp, -⟩ := Place.at?_eq_some_iff.1 hat
          simp only [Session.perform, hat]
          exact hready.moveTo hp
  | reset =>
      refine Library.Ready.of_memo_empty s.state.memo ?_ rfl
      change s.state.cursor.start.IsIn s.state.cursor.source
      rw [h.source]
      exact h.start
  | clear => exact hready
  | renew => exact Library.Ready.of_memo_empty s.state.memo hready.place rfl

theorem Valid.perform (hclosed : lib.Closed) (h : s.Valid lib text) {step : Step}
    (hstep : step.Knows lib) : (s.perform lib step).2.Valid lib text := by
  have hready := ready_perform hclosed h hstep
  by_cases hreset : step = .reset
  · subst hreset
    exact ⟨h.source, h.start, hready⟩
  · have hlater : s.state.Later (s.perform lib step).2.state := later_perform hreset s
    refine ⟨hlater.source.trans h.source, ?_, hready⟩
    rw [hlater.start]
    exact h.start

theorem Valid.performAll (hclosed : lib.Closed) {steps : List Step} (h : s.Valid lib text)
    (hsteps : ∀ step ∈ steps, step.Knows lib) : (s.performAll lib steps).2.Valid lib text := by
  induction steps generalizing s with
  | nil => exact h
  | cons step steps ih =>
      obtain ⟨hstep, hrest⟩ := List.forall_mem_cons.1 hsteps
      exact ih (h.perform hclosed hstep) hrest

/-- Every recorded outcome is the one that a run without a memo finds at the offset, without
exceeding a limit, if calls are not limited and executions may nest deep enough. -/
theorem memo_truthful (hlib : lib.Built) {cursor : Cursor}
    (hplace : cursor.place.IsIn cursor.source) (hstart : cursor.start.IsIn cursor.source)
    {steps : List Step} (hsteps : ∀ step ∈ steps, step.Knows lib) {memo : Memo}
    (hmemo : ((start cursor true).performAll lib steps).2.state.memo = some memo) {r : RuleRef}
    {offset : Nat} {outcome : Option Derivation}
    (hrecorded : memo.outcome? r offset = some outcome) :
    ∃ p, Place.at? cursor.source offset = some p ∧ ∃ depth, ∀ maxDepth ≥ depth, ∃ state,
      (start ((Cursor.ofPlace cursor.source p).withMaxDepth maxDepth) false).perform lib (.exec r) =
        (outcome.map Derivation.length,
          { state, events := outcome.elim #[] Derivation.events }) ∧
      state.cursor.reachedLimit = false := by
  have hclosed := hlib.closed
  have hvalid := (valid_start hplace hstart true).performAll hclosed hsteps
  obtain ⟨p, e, hp, hoffset, hyields, -⟩ := hvalid.ready.memo memo hmemo r offset outcome hrecorded
  rw [hvalid.source] at hp
  refine ⟨p, Place.at?_eq_some_iff.2 ⟨hp, hoffset⟩, e.height, fun maxDepth hdepth => ?_⟩
  let fresh : State := .start ((Cursor.ofPlace cursor.source p).withMaxDepth maxDepth) false
  have hready : lib.Ready fresh := Library.ready_start hp false
  have hafford : fresh.Affords fresh.cursor.nesting.room e := by
    refine ⟨rfl, hdepth, fun limit hlimit => ?_⟩
    cases hlimit
  obtain ⟨hout, hwithin⟩ :=
    (lib.exec_finds hclosed _).finds r fresh outcome e hready hyields hafford
  refine ⟨(lib.run r fresh).2, ?_, hwithin.unlimited⟩
  change collect #[] (lib.run r fresh) = _
  rcases hrun : lib.run r fresh with ⟨found, t⟩
  have hfound : found = outcome := by
    rw [← hout]
    change found = (lib.run r fresh).1
    rw [hrun]
  subst hfound
  cases found <;> rfl

/-- The memo after a run on a pair of brackets knows what the rule makes of them. -/
theorem memo_truthful_brackets :
    ∃ memo outcome,
      ((start (.new "()".toList) true).performAll bracketLibrary [.exec ⟨0, 4⟩]).2.state.memo =
        some memo ∧
      memo.outcome? ⟨0, 4⟩ 0 = some outcome ∧
      ∃ p, Place.at? "()".toList 0 = some p ∧ ∃ depth, ∀ maxDepth ≥ depth, ∃ state,
        (start ((Cursor.ofPlace "()".toList p).withMaxDepth maxDepth) false).perform bracketLibrary
            (.exec ⟨0, 4⟩) =
          (outcome.map Derivation.length,
            { state, events := outcome.elim #[] Derivation.events }) ∧
        state.cursor.reachedLimit = false := by
  have hplain : (bracketLibrary.run ⟨0, 4⟩
      (.start (.new "()".toList) false)).2.cursor.reachedLimit = false := by decide +kernel
  have hstart := Place.isIn_start "()".toList
  obtain ⟨-, hshadows⟩ :=
    (State.Shadows.start hstart rfl true).run bracketLibrary_built.closed bracketLibrary_knows
      hplain
  obtain ⟨memo, hmemo, hrecorded⟩ := Library.recorded_of_run rfl hshadows.unlimited
  have hmemo' : ((start (.new "()".toList) true).performAll bracketLibrary
      [.exec ⟨0, 4⟩]).2.state.memo = some memo := by
    change ((start (.new "()".toList) true).perform bracketLibrary
      (.exec ⟨0, 4⟩)).2.state.memo = some memo
    rw [perform_exec_state]
    exact hmemo
  have hsteps : ∀ step ∈ [Step.exec ⟨0, 4⟩], step.Knows bracketLibrary :=
    List.forall_mem_singleton.2 bracketLibrary_knows
  exact ⟨memo, _, hmemo', hrecorded,
    memo_truthful bracketLibrary_built hstart hstart hsteps hmemo' hrecorded⟩

end Session

end Peg
