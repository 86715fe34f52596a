import Peg.Proofs.Engine.Tape
import Peg.Proofs.Semantics.Matches
import Peg.Proofs.Session.Basic

/-!
# Sessions that write their events

The steps of a session can be taken on a tape: the results are the same, and afterwards the buffer
holds the events that the session collected (`Tape.Records.perform`). So what holds of all sessions
over a text holds of the tapes that steps lead to (`Tape.Reached.records`).
-/

namespace Peg

namespace Library

variable {lib : Library} {t : Tape} {s : State}

theorem write_wrote (lib : Library) (ht : t.Shows s) (r : RuleRef) :
    Wrote t.events (lib.write r t) (lib.run r s) := by
  unfold write run
  rw [ht.cursor]
  exact lib.writer_writes s.cursor.nesting.room r ht

theorem writeBare_wrote (lib : Library) (ht : t.Shows s) (r : RuleRef) :
    Wrote t.events (lib.writeBare r t) (lib.runBare r s) := by
  unfold writeBare runBare
  rw [ht.cursor]
  cases lib.rule? r with
  | none => exact ht.wrote_none
  | some rule => exact (lib.writer_writes s.cursor.nesting.room).perform r ht rule.kind

end Library

namespace Tape

/-- The tape is where the session is, and its buffer holds what the session collected. -/
structure Records (t : Tape) (s : Session) : Prop where
  shows : t.Shows s.state
  events : t.events = s.events

namespace Records

variable {lib : Library} {t : Tape} {s : Session}

theorem of_wrote {before : Array Event} {result : Option Nat × Tape}
    {outcome : Option Derivation × State} (h : Wrote before result outcome) :
    result.1 = (Session.collect before outcome).1 ∧
      result.2.Records (Session.collect before outcome).2 := by
  obtain ⟨found, state⟩ := outcome
  cases found with
  | none => exact ⟨h.length, h.shows, h.events⟩
  | some d => exact ⟨h.length, h.shows, h.events⟩

theorem perform (lib : Library) (h : t.Records s) (step : Session.Step) :
    (t.perform lib step).1 = (s.perform lib step).1 ∧
      (t.perform lib step).2.Records (s.perform lib step).2 := by
  have hsource : t.cursor.source = s.state.cursor.source := by rw [h.shows.cursor]
  cases step with
  | exec r =>
      have hwrote := of_wrote (lib.write_wrote h.shows r)
      rw [h.events] at hwrote
      exact hwrote
  | test r =>
      have hwrote := lib.write_wrote (h.shows.withEvents #[]) r
      refine ⟨hwrote.length, ?_, h.events⟩
      have hback := (hwrote.shows.moveTo t.place).withEvents t.events
      rw [h.shows.place] at hback
      simp only [Tape.perform, Writer.test, Session.perform, h.shows.place]
      exact hback
  | bare r =>
      have hwrote := of_wrote (lib.writeBare_wrote h.shows r)
      rw [h.events] at hwrote
      exact hwrote
  | moveTo offset =>
      simp only [Tape.perform, Session.perform, hsource]
      cases Place.at? s.state.cursor.source offset with
      | none => exact ⟨rfl, h⟩
      | some p => exact ⟨rfl, h.shows.moveTo p, h.events⟩
  | reset => exact ⟨rfl, h.shows.reset, h.events⟩
  | clear => exact ⟨rfl, h.shows.withEvents #[], rfl⟩
  | renew => exact ⟨rfl, h.shows.renew, h.events⟩

end Records

end Tape

theorem Session.inside_perform {lib : Library} {text : List Char} {s : Session}
    (hclosed : lib.Closed) (h : s.Valid lib text) (hs : lib.Inside s.state) {step : Session.Step}
    (hstep : step.Knows lib) : lib.Inside (s.perform lib step).2.state := by
  refine ⟨Session.ready_perform hclosed h hstep, ?_⟩
  have hderiving := lib.exec_deriving hclosed s.state.cursor.nesting.room
  cases step with
  | exec r =>
      rw [Session.perform_exec_state]
      exact (hderiving.inside hstep hs).furthest
  | test r => exact (hderiving.inside hstep hs).furthest
  | bare r =>
      obtain ⟨rule, hrule⟩ := Option.isSome_iff_exists.1 hstep
      obtain ⟨hend, -⟩ := hderiving.performed (hclosed.targets r rule hrule) hs
      rw [Session.perform_bare_state]
      simp only [Library.runBare, hrule]
      exact hend.furthest
  | moveTo offset =>
      simp only [Session.perform]
      split
      · exact hs.furthest
      · exact hs.furthest
  | reset =>
      change s.state.cursor.start.offset ≤ byteLength s.state.cursor.source
      rw [h.source]
      exact h.start.offset_le
  | clear | renew => exact hs.furthest

namespace Tape

/-- The tapes that steps lead to from some place of a text, with any limits. The buffer may be
exchanged between the steps. -/
inductive Reached (lib : Library) (text : List Char) : Tape → Prop
  | start {offset cursor} (callLimit : Option Nat) (maxDepth : Nat) (memoize : Bool) :
      Cursor.at? text offset = some cursor →
      Reached lib text (.start ((cursor.withCallLimit callLimit).withMaxDepth maxDepth) memoize)
  | step {t step} : Reached lib text t → step.Knows lib → Reached lib text (t.perform lib step).2
  | exchange {t} (events : Array Event) : Reached lib text t → Reached lib text (t.withEvents events)

/-- A tape that steps lead to holds what a session over the text collected. -/
theorem Reached.records {lib : Library} {text : List Char} {t : Tape} (hclosed : lib.Closed)
    (h : t.Reached lib text) :
    ∃ s : Session, t.Records s ∧ s.Valid lib text ∧ lib.Inside s.state := by
  induction h with
  | @start offset cursor callLimit maxDepth memoize hcursor =>
      obtain ⟨p, hp, rfl⟩ := Option.map_eq_some_iff.1 hcursor
      obtain ⟨hin, -⟩ := Place.at?_eq_some_iff.1 hp
      let limited := ((Cursor.ofPlace text p).withCallLimit callLimit).withMaxDepth maxDepth
      have hplace : limited.place.IsIn limited.source := hin
      exact ⟨.start limited memoize, ⟨.start limited memoize, rfl⟩,
        Session.valid_start hplace hin memoize, Library.inside_start hplace hin.offset_le memoize⟩
  | @step t step _ hstep ih =>
      obtain ⟨s, hrecords, hvalid, hinside⟩ := ih
      exact ⟨_, (hrecords.perform lib step).2, hvalid.perform hclosed hstep,
        Session.inside_perform hclosed hvalid hinside hstep⟩
  | exchange events _ ih =>
      obtain ⟨s, hrecords, hvalid, hinside⟩ := ih
      exact ⟨{ s with events }, ⟨hrecords.shows.withEvents events, rfl⟩,
        ⟨hvalid.source, hvalid.start, hvalid.ready⟩, hinside⟩

end Tape

end Peg
