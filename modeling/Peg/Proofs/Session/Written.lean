import Peg.Proofs.Semantics.Adequacy
import Peg.Proofs.Session.Tape

/-!
# What steps leave in the buffer

Whatever steps were taken before and whatever limits were exceeded, a rule that is run either leaves
the buffer and the cursor as they were, or adds the events of a well-formed derivation and moves the
cursor behind the match. A test does neither.
-/

namespace Peg

namespace Tape

/-- A run that fails leaves the buffer and the place as they were. One that matches adds to the buffer
and moves on by the length of the match to another place of the text. -/
structure Atomic (text : List Char) (t : Tape) (result : Option Nat × Tape) : Prop where
  of_none : result.1 = none → result.2.events = t.events ∧ result.2.place = t.place
  of_some : ∀ n, result.1 = some n →
    (∃ written, result.2.events = t.events ++ written) ∧
      t.place.offset + n ≤ byteLength text ∧
      Place.at? text (t.place.offset + n) = some result.2.place

/-- A test tells what the run would tell and leaves the buffer and the place as they are. -/
structure Unnoticed (t : Tape) (run test : Option Nat × Tape) : Prop where
  result : test.1 = run.1
  events : test.2.events = t.events
  place : test.2.place = t.place

namespace Reached

variable {lib : Library} {text : List Char} {t : Tape} {r : RuleRef}

theorem place_isIn (hclosed : lib.Closed) (ht : t.Reached lib text) : t.place.IsIn text := by
  obtain ⟨s, hrecords, hvalid, hinside⟩ := ht.records hclosed
  have hplace := hinside.ready.place
  rw [hvalid.source, ← hrecords.shows.place] at hplace
  exact hplace

theorem write_cases (hclosed : lib.Closed) (ht : t.Reached lib text) (hr : lib.Knows r) :
    ((lib.write r t).1 = none ∧ (lib.write r t).2.events = t.events ∧
        (lib.write r t).2.place = t.place) ∨
      ∃ d, lib.Derives r t.place d ∧ (lib.write r t).1 = some d.length ∧
        (lib.write r t).2.events = t.events ++ d.events ∧
        (lib.write r t).2.place = t.place.advance d.length := by
  obtain ⟨s, hrecords, -, hinside⟩ := ht.records hclosed
  have hwrote := lib.write_wrote hrecords.shows r
  have hfollows := Library.run_follows hclosed hr hinside.ready
  have hderives := (lib.exec_deriving hclosed s.state.cursor.nesting.room).allows hr hinside
  have hplace := hfollows.place
  rw [← hwrote.shows.place, ← hrecords.shows.place] at hplace
  rw [← hrecords.shows.place] at hderives
  have hlength := hwrote.length
  have hevents := hwrote.events
  cases hout : (lib.run r s.state).1 with
  | none =>
      rw [hout] at hlength hevents hplace
      exact .inl ⟨hlength, hevents, hplace⟩
  | some d =>
      rw [hout] at hlength hevents hplace
      refine .inr ⟨d, hderives d hout, hlength, ?_, hplace⟩
      rw [← Derivation.emit_eq_append]
      exact hevents

/-- What a match adds to the buffer are the events of a derivation of the rule as long as the match,
and the cursor is moved behind it. -/
theorem write_derives (hlib : lib.Built) (ht : t.Reached lib text) (hr : lib.Knows r) {n : Nat}
    (hn : (lib.write r t).1 = some n) :
    ∃ d, lib.Derives r t.place d ∧ d.length = n ∧ Splits n t.place.rest ∧
      (lib.write r t).2.place = t.place.advance n ∧
      (lib.write r t).2.events = t.events ++ d.events := by
  obtain ⟨hnone, -, -⟩ | ⟨d, hderives, hlength, hevents, hplace⟩ := ht.write_cases hlib.closed hr
  · rw [hn] at hnone
    cases hnone
  · rw [hn] at hlength
    cases hlength
    exact ⟨d, hderives, rfl, hderives.covers, hplace, hevents⟩

/-- The inner brackets, read after the outer ones were tested. -/
theorem write_derives_brackets :
    ∃ t : Tape, t.Reached bracketLibrary "(())".toList ∧
      (bracketLibrary.write ⟨0, 4⟩ t).1 = some 2 ∧
      ∃ d, bracketLibrary.Derives ⟨0, 4⟩ t.place d ∧ d.length = 2 ∧ Splits 2 t.place.rest ∧
        (bracketLibrary.write ⟨0, 4⟩ t).2.place = t.place.advance 2 ∧
        (bracketLibrary.write ⟨0, 4⟩ t).2.events = t.events ++ d.events := by
  let first : Tape :=
    .start (((Cursor.new "(())".toList).withCallLimit (some 30)).withMaxDepth 20) false
  let t := ((first.perform bracketLibrary (.test ⟨0, 4⟩)).2.perform bracketLibrary (.moveTo 1)).2
  have hcursor : Cursor.at? "(())".toList 0 = some (.new "(())".toList) := by decide +kernel
  have hfirst : first.Reached bracketLibrary "(())".toList := .start (some 30) 20 false hcursor
  have ht : t.Reached bracketLibrary "(())".toList :=
    .step (.step hfirst bracketLibrary_knows) trivial
  have hn : (bracketLibrary.write ⟨0, 4⟩ t).1 = some 2 := by decide +kernel
  exact ⟨t, ht, hn, write_derives bracketLibrary_built ht bracketLibrary_knows hn⟩

theorem atomic (hclosed : lib.Closed) (ht : t.Reached lib text) (hr : lib.Knows r) :
    t.Atomic text (lib.write r t) := by
  obtain ⟨hnone, hevents, hplace⟩ | ⟨d, hderives, hlength, hevents, hplace⟩ :=
    ht.write_cases hclosed hr
  · refine ⟨fun _ => ⟨hevents, hplace⟩, fun n hn => ?_⟩
    rw [hnone] at hn
    cases hn
  · have hend := (ht.place_isIn hclosed).advance hderives.covers
    refine ⟨fun hn => ?_, fun n hn => ?_⟩
    · rw [hlength] at hn
      cases hn
    · rw [hlength] at hn
      cases hn
      refine ⟨⟨d.events, hevents⟩, hend.offset_le, ?_⟩
      rw [hplace]
      exact Place.at?_eq_some_iff.2 ⟨hend, rfl⟩

theorem unnoticed (hclosed : lib.Closed) (ht : t.Reached lib text) :
    t.Unnoticed (lib.write r t) (lib.write.test r t) := by
  obtain ⟨s, hrecords, -, -⟩ := ht.records hclosed
  have hrun := (lib.write_wrote hrecords.shows r).length
  have htest := (lib.write_wrote (hrecords.shows.withEvents #[]) r).length
  exact ⟨htest.trans hrun.symm, rfl, rfl⟩

theorem furthest_perform (hclosed : lib.Closed) (ht : t.Reached lib text) {step : Session.Step}
    (hstep : step.Knows lib) :
    (t.perform lib step).2.cursor.furthest ≤ byteLength text ∧
      (step ≠ .reset → t.cursor.furthest ≤ (t.perform lib step).2.cursor.furthest) := by
  obtain ⟨s, hrecords, hvalid, hinside⟩ := ht.records hclosed
  have hnext := (hrecords.perform lib step).2.shows.cursor
  rw [hnext, hrecords.shows.cursor]
  constructor
  · have hwithin := (Session.inside_perform hclosed hvalid hinside hstep).furthest
    rw [(hvalid.perform hclosed hstep).source] at hwithin
    exact hwithin
  · exact fun hreset => (Session.later_perform hreset s).furthest

/-- Running a rule is atomic and testing it goes unnoticed, after any steps, under any limits and
with any buffer. No step moves the furthest offset out of the text, and none but starting again moves
it back. -/
theorem write_atomic (hlib : lib.Built) (ht : t.Reached lib text) (hr : lib.Knows r) :
    t.Atomic text (lib.write r t) ∧ t.Unnoticed (lib.write r t) (lib.write.test r t) ∧
      ∀ step : Session.Step, step.Knows lib →
        (t.perform lib step).2.cursor.furthest ≤ byteLength text ∧
        (step ≠ .reset → t.cursor.furthest ≤ (t.perform lib step).2.cursor.furthest) :=
  ⟨ht.atomic hlib.closed hr, ht.unnoticed hlib.closed,
    fun _ hstep => ht.furthest_perform hlib.closed hstep⟩

/-- Brackets that are not closed, with something in the buffer: no match of the inner rule. -/
theorem write_atomic_brackets :
    ∃ t : Tape, t.Reached bracketLibrary "(()".toList ∧ t.events = #[.closed] ∧
      (bracketLibrary.write ⟨0, 3⟩ t).1 = none ∧
      t.Atomic "(()".toList (bracketLibrary.write ⟨0, 3⟩ t) ∧
      t.Unnoticed (bracketLibrary.write ⟨0, 3⟩ t) (bracketLibrary.write.test ⟨0, 3⟩ t) ∧
      (t.perform bracketLibrary (.exec ⟨0, 3⟩)).2.cursor.furthest ≤ byteLength "(()".toList ∧
      t.cursor.furthest ≤ (t.perform bracketLibrary (.exec ⟨0, 3⟩)).2.cursor.furthest := by
  let first : Tape :=
    .start (((Cursor.new "(()".toList).withCallLimit none).withMaxDepth 20) false
  have hcursor : Cursor.at? "(()".toList 0 = some (.new "(()".toList) := by decide +kernel
  have hfirst : first.Reached bracketLibrary "(()".toList := .start none 20 false hcursor
  have ht : (first.withEvents #[.closed]).Reached bracketLibrary "(()".toList := .exchange _ hfirst
  have hknows : bracketLibrary.Knows ⟨0, 3⟩ := by
    unfold Library.Knows
    decide +kernel
  have hnone : (bracketLibrary.write ⟨0, 3⟩ (first.withEvents #[.closed])).1 = none := by
    decide +kernel
  obtain ⟨hatomic, hunnoticed, hsteps⟩ := write_atomic bracketLibrary_built ht hknows
  obtain ⟨hwithin, hforward⟩ := hsteps (.exec ⟨0, 3⟩) hknows
  exact ⟨_, ht, rfl, hnone, hatomic, hunnoticed, hwithin, hforward Session.Step.noConfusion⟩

end Reached

end Tape

end Peg
