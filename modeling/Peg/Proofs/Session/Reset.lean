import Peg.Proofs.Engine.Noted
import Peg.Proofs.Session.Tape

/-!
# Starting again

Whatever steps a session has taken, whichever limits they exceeded, starting again brings back the
cursor and the empty memo that it began with, and nothing that happened before can be told from what
happens from then on. Main statement: `Session.reset_restores`.
-/

namespace Peg

/-! ## What no step changes -/

/-- The two states are of runs over one text that began at one place with the same limits, both with
a memo or both without. -/
structure State.SameRun (s t : State) : Prop where
  source : t.cursor.source = s.cursor.source
  start : t.cursor.start = s.cursor.start
  callLimit : t.cursor.calls.limit = s.cursor.calls.limit
  nestingLimit : t.cursor.nesting.limit = s.cursor.nesting.limit
  memo : t.memo.isSome = s.memo.isSome

namespace State

variable {s t : State}

theorem SameRun.refl (s : State) : s.SameRun s := ⟨rfl, rfl, rfl, rfl, rfl⟩

theorem SameRun.trans {u : State} (h : s.SameRun t) (h' : t.SameRun u) : s.SameRun u where
  source := h'.source.trans h.source
  start := h'.start.trans h.start
  callLimit := h'.callLimit.trans h.callLimit
  nestingLimit := h'.nestingLimit.trans h.nestingLimit
  memo := h'.memo.trans h.memo

theorem Later.sameRun (h : s.Later t) : s.SameRun t where
  source := h.source
  start := h.start
  callLimit := h.callLimit
  nestingLimit := h.nestingLimit
  memo := h.memo

theorem sameRun_reset (s : State) : s.SameRun s.reset := ⟨rfl, rfl, rfl, rfl, Option.isSome_map⟩

theorem SameRun.reset_eq (h : s.SameRun t) :
    t.reset.cursor = s.reset.cursor ∧ t.reset.memo = s.reset.memo := by
  constructor
  · simp only [reset, Cursor.reset, CallBudget.fresh, Nesting.fresh, h.source, h.start, h.callLimit,
      h.nestingLimit]
  · have hmemo := h.memo
    simp only [reset]
    cases hs : s.memo <;> cases ht : t.memo <;> simp_all

theorem reset_start {text : List Char} {offset : Nat} {cursor : Cursor}
    (hcursor : Cursor.at? text offset = some cursor) (callLimit : Option Nat) (maxDepth : Nat)
    (memoize : Bool) :
    (start ((cursor.withCallLimit callLimit).withMaxDepth maxDepth) memoize).reset =
      start ((cursor.withCallLimit callLimit).withMaxDepth maxDepth) memoize := by
  obtain ⟨p, hp, rfl⟩ := Option.map_eq_some_iff.1 hcursor
  cases memoize <;> rfl

end State

namespace Session

variable {lib : Library}

theorem sameRun_perform (lib : Library) (s : Session) (step : Step) :
    s.state.SameRun (s.perform lib step).2.state := by
  by_cases hreset : step = .reset
  · subst hreset
    exact State.sameRun_reset s.state
  · exact (later_perform hreset s).sameRun

theorem sameRun_performAll (lib : Library) (s : Session) (steps : List Step) :
    s.state.SameRun (s.performAll lib steps).2.state := by
  induction steps generalizing s with
  | nil => exact State.SameRun.refl _
  | cons step steps ih => exact (sameRun_perform lib s step).trans (ih _)

/-! ## Replays noted before -/

/-- The session with replays noted before all others. -/
def noted (before : Array Replay) (s : Session) : Session := { s with state := s.state.noted before }

theorem collect_noted (before : Array Replay) (events : Array Event)
    (result : Option Derivation × State) :
    collect events (result.map id (State.noted before)) =
      (collect events result).map id (noted before) := by
  obtain ⟨outcome, state⟩ := result
  cases outcome <;> rfl

theorem perform_noted (lib : Library) (before : Array Replay) (s : Session) (step : Step) :
    (s.noted before).perform lib step = (s.perform lib step).map id (noted before) := by
  cases step with
  | exec r =>
      simp only [perform, noted, lib.run_heedless r s.state before]
      exact collect_noted before s.events _
  | test r =>
      simp only [perform, noted, lib.run_heedless r s.state before]
      rfl
  | bare r =>
      simp only [perform, noted, lib.runBare_heedless r s.state before]
      exact collect_noted before s.events _
  | moveTo offset =>
      simp only [perform, noted, State.noted_cursor]
      cases Place.at? s.state.cursor.source offset <;> rfl
  | reset | clear | renew => rfl

theorem performAll_noted (lib : Library) (before : Array Replay) (s : Session) (steps : List Step) :
    (s.noted before).performAll lib steps = (s.performAll lib steps).map id (noted before) := by
  induction steps generalizing s with
  | nil => rfl
  | cons step steps ih =>
      have hnext : ((s.perform lib step).map id (noted before)).2.performAll lib steps =
          ((s.perform lib step).2.performAll lib steps).map id (noted before) := ih _
      simp only [performAll, perform_noted, hnext]
      rfl

theorem reset_state (lib : Library) {text : List Char} {offset : Nat} {cursor : Cursor}
    (hcursor : Cursor.at? text offset = some cursor) (callLimit : Option Nat) (maxDepth : Nat)
    (memoize : Bool) (steps : List Step) :
    let first : State := .start ((cursor.withCallLimit callLimit).withMaxDepth maxDepth) memoize
    let used := (performAll lib { state := first } steps).2.state
    used.reset = first.noted used.replays := by
  intro first used
  obtain ⟨hsame, hmemo⟩ := (sameRun_performAll lib { state := first } steps).reset_eq
  rw [State.reset_start hcursor callLimit maxDepth memoize] at hsame hmemo
  change State.mk used.reset.cursor used.reset.memo used.replays =
    State.mk first.cursor first.memo (used.replays ++ #[])
  rw [hsame, hmemo, Array.append_empty]

end Session

namespace Tape

def performAll (lib : Library) : Tape → List Session.Step → List (Option Nat) × Tape
  | t, [] => ([], t)
  | t, step :: steps =>
    ((t.perform lib step).1 :: ((t.perform lib step).2.performAll lib steps).1,
      ((t.perform lib step).2.performAll lib steps).2)

theorem Records.performAll {t : Tape} {s : Session} (lib : Library) (h : t.Records s)
    (steps : List Session.Step) :
    (t.performAll lib steps).1 = (s.performAll lib steps).1 ∧
      (t.performAll lib steps).2.Records (s.performAll lib steps).2 := by
  induction steps generalizing t s with
  | nil => exact ⟨rfl, h⟩
  | cons step steps ih =>
      obtain ⟨hresult, hnext⟩ := h.perform lib step
      obtain ⟨hresults, hend⟩ := ih hnext
      refine ⟨?_, hend⟩
      simp only [Tape.performAll, Session.performAll, hresult, hresults]

/-- The two tapes are alike in the cursor, in the outcomes recorded, in their number and counts, and in
the buffer. -/
structure Alike (t u : Tape) : Prop where
  cursor : t.cursor = u.cursor
  outcome : ∀ r offset,
    t.recording.map (·.outcome? r offset) = u.recording.map (·.outcome? r offset)
  size : t.recording.map (·.table.size) = u.recording.map (·.table.size)
  stats : t.recording.map (·.stats) = u.recording.map (·.stats)
  events : t.events = u.events

theorem map_eq_of_shows {α : Type} {x y : Option Recording} {memo : Option Memo}
    (hx : Option.Rel Recording.Shows x memo) (hy : Option.Rel Recording.Shows y memo)
    {f : Recording → α} (g : Memo → α)
    (hf : ∀ {recording memo}, Recording.Shows recording memo → f recording = g memo) :
    x.map f = y.map f := by
  cases hx with
  | none =>
      cases hy
      rfl
  | some hx =>
      cases hy with
      | some hy => exact congrArg some ((hf hx).trans (hf hy).symm)

theorem Records.alike {t u : Tape} {s : Session} {before : Array Replay}
    (ht : t.Records (s.noted before)) (hu : u.Records s) : t.Alike u := by
  have hx : Option.Rel Recording.Shows t.recording s.state.memo := ht.shows.recording
  have hy := hu.shows.recording
  exact {
    cursor := ht.shows.cursor.trans hu.shows.cursor.symm
    outcome := fun r offset =>
      map_eq_of_shows hx hy (fun memo => (memo.outcome? r offset).map (Option.map Derivation.events))
        fun hshows => hshows.outcome r offset
    size := map_eq_of_shows hx hy (fun memo => memo.table.size) fun hshows => hshows.size
    stats := map_eq_of_shows hx hy (fun memo => memo.stats) fun hshows => hshows.stats
    events := ht.events.trans hu.events.symm }

end Tape

/-! ## As new -/

/-- The session is at the cursor with an empty memo, and whatever is done with it from then on, into
whatever buffer of events, comes out as in a new session that begins with the cursor. -/
structure Session.AsNew (lib : Library) (first : Cursor) (s : Session) : Prop where
  cursor : s.state.cursor = first
  memo : s.state.memo = some {}
  later : ∀ (events : Array Event) (steps : List Step),
    let old := performAll lib { s with events } steps
    let new := performAll lib { start first true with events } steps
    old.1 = new.1 ∧ old.2.state.cursor = new.2.state.cursor ∧
      old.2.state.memo = new.2.state.memo ∧ old.2.state.outline = new.2.state.outline ∧
      old.2.events = new.2.events

/-- The same of a tape. -/
structure Tape.AsNew (lib : Library) (first : Cursor) (t : Tape) : Prop where
  cursor : t.cursor = first
  recording : t.recording = some {}
  later : ∀ (events : Array Event) (steps : List Session.Step),
    let old := (t.withEvents events).performAll lib steps
    let new := ((Tape.start first true).withEvents events).performAll lib steps
    old.1 = new.1 ∧ old.2.Alike new.2

theorem Session.asNew_of_noted (lib : Library) (first : Cursor) {s : Session}
    (h : s.state = (State.start first true).noted s.state.replays) : s.AsNew lib first where
  cursor := congrArg State.cursor h
  memo := congrArg State.memo h
  later events steps := by
    intro old new
    have hs : ({ s with events } : Session) =
        ({ start first true with events } : Session).noted s.state.replays :=
      congrArg (Session.mk · events) h
    have hold : old = new.map id (noted s.state.replays) := by
      rw [← performAll_noted, ← hs]
    rw [hold]
    exact ⟨rfl, rfl, rfl, rfl, rfl⟩

theorem Tape.Records.asNew (lib : Library) (first : Cursor) {t : Tape} {s : Session}
    (h : t.Records s) (hs : s.state = (State.start first true).noted s.state.replays)
    (hrecording : t.recording = some {}) : t.AsNew lib first where
  cursor := h.shows.cursor.trans (congrArg State.cursor hs)
  recording := hrecording
  later events steps := by
    intro old new
    let fresh : Session := { Session.start first true with events }
    have hfresh : ((Tape.start first true).withEvents events).Records fresh :=
      ⟨(Shows.start first true).withEvents events, rfl⟩
    have hreset : (t.withEvents events).Records (fresh.noted s.state.replays) := by
      refine ⟨?_, rfl⟩
      have hshows := h.shows.withEvents events
      rw [hs] at hshows
      exact hshows
    obtain ⟨hresults, hends⟩ := hreset.performAll lib steps
    obtain ⟨hnewResults, hnewEnds⟩ := hfresh.performAll lib steps
    rw [Session.performAll_noted] at hresults hends
    exact ⟨hresults.trans hnewResults.symm, hends.alike hnewEnds⟩

/-- Wherever a session with a memo began in a text, whatever its limits are and whatever steps it
took, also when it exceeded a limit: once it starts again, it is as new. So is the tape on which the
same steps were taken. -/
theorem Session.reset_restores (lib : Library) {text : List Char} {offset : Nat} {cursor : Cursor}
    (hcursor : Cursor.at? text offset = some cursor) (callLimit : Option Nat) (maxDepth : Nat)
    (steps : List Step) :
    let first := (cursor.withCallLimit callLimit).withMaxDepth maxDepth
    let used := ((start first true).performAll lib steps).2
    let usedTape := ((Tape.start first true).performAll lib steps).2
    (used.perform lib .reset).2.AsNew lib first ∧
      (usedTape.perform lib .reset).2.AsNew lib first := by
  intro first used usedTape
  have hstate : (used.perform lib .reset).2.state = _ :=
    reset_state lib hcursor callLimit maxDepth true steps
  have hstart : (Tape.start first true).Records (start first true) := ⟨.start first true, rfl⟩
  obtain ⟨-, hused⟩ := hstart.performAll lib steps
  obtain ⟨-, htape⟩ := hused.perform lib .reset
  have hrecording : usedTape.reset.recording = some {} := by
    obtain ⟨memo, hmemo⟩ := Option.isSome_iff_exists.1
      (sameRun_performAll lib (start first true) steps).memo
    obtain ⟨recording, hrecording, -⟩ := hused.shows.exists_recording hmemo
    exact congrArg (Option.map fun _ => ({} : Recording)) hrecording
  exact ⟨asNew_of_noted lib first hstate, htape.asNew lib first hstate hrecording⟩

/-- A session on brackets that may not nest at all. -/
theorem Session.reset_restores_brackets :
    let first := ((Cursor.new "(())".toList).withCallLimit (some 7)).withMaxDepth 0
    let used := ((start first true).performAll bracketLibrary [.exec ⟨0, 4⟩]).2
    let usedTape := ((Tape.start first true).performAll bracketLibrary [.exec ⟨0, 4⟩]).2
    Cursor.at? "(())".toList 0 = some (.new "(())".toList) ∧
      used.state.cursor.nesting.exceeded = true ∧
      (used.perform bracketLibrary .reset).2.AsNew bracketLibrary first ∧
      (usedTape.perform bracketLibrary .reset).2.AsNew bracketLibrary first := by
  intro first used usedTape
  have hcursor : Cursor.at? "(())".toList 0 = some (.new "(())".toList) := by decide +kernel
  have hmiss : Memo.outcome? {} ⟨0, 4⟩ (State.start first true).place.offset = none := by
    simp [Memo.outcome?]
  have hrefused : (bracketLibrary.run ⟨0, 4⟩ (.start first true)).2.cursor =
      (State.start first true).spendCall.refuseNesting.cursor := by
    unfold Library.run Library.exec
    exact congrArg (·.2.cursor) (Exec.memoized_of_miss rfl hmiss)
  refine ⟨hcursor, ?_, reset_restores bracketLibrary hcursor (some 7) 0 [.exec ⟨0, 4⟩]⟩
  change ((start first true).perform bracketLibrary (.exec ⟨0, 4⟩)).2.state.cursor.nesting.exceeded =
    true
  rw [perform_exec_state]
  exact congrArg (·.nesting.exceeded) hrefused

end Peg
