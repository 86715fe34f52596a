import Peg.Proofs.Parse.Basic
import Peg.Proofs.Session.Basic

/-!
# Sessions with and without a memo

Taken in lockstep, the steps of a session with a memo have the results of the steps of a session
without one as long as the latter exceeds no limit (`Session.Shadows.performAll`), and so has a
parse (`Library.parse_memoize`).
-/

namespace Peg

namespace Session

/-- The step runs a rule of the library from where the cursor is, or moves the cursor. -/
def Step.Runs (lib : Library) : Step → Prop
  | .exec r | .test r => lib.Knows r
  | .moveTo _ => True
  | .bare _ | .reset | .clear | .renew => False

variable {lib : Library} {s t : Session}

theorem Step.Runs.ne_reset {step : Step} (h : step.Runs lib) : step ≠ .reset := by
  rintro rfl
  cases h

theorem later_performAll {steps : List Step} (hsteps : ∀ step ∈ steps, step.Runs lib)
    (s : Session) : s.state.Later (s.performAll lib steps).2.state := by
  induction steps generalizing s with
  | nil => exact State.Later.refl _
  | cons step steps ih =>
      obtain ⟨hstep, hrest⟩ := List.forall_mem_cons.1 hsteps
      exact (later_perform hstep.ne_reset s).trans (ih hrest _)

/-- The session `t` collected the events of the session `s` without a memo and follows it. -/
structure Shadows (lib : Library) (s t : Session) : Prop where
  state : State.Shadows lib s.state t.state
  events : t.events = s.events

theorem Shadows.perform (hclosed : lib.Closed) (h : Shadows lib s t) {step : Step}
    (hstep : step.Runs lib)
    (hreached : (s.perform lib step).2.state.cursor.reachedLimit = false) :
    (t.perform lib step).1 = (s.perform lib step).1 ∧
      Shadows lib (s.perform lib step).2 (t.perform lib step).2 := by
  cases step with
  | exec r =>
      rw [perform_exec_state] at hreached
      obtain ⟨hout, hstate⟩ := h.state.run hclosed hstep hreached
      change (collect t.events (lib.run r t.state)).1 = (collect s.events (lib.run r s.state)).1 ∧
        Shadows lib (collect s.events (lib.run r s.state)).2
          (collect t.events (lib.run r t.state)).2
      rw [h.events]
      rcases hs : lib.run r s.state with ⟨outcome, s'⟩
      rcases ht : lib.run r t.state with ⟨outcome', t'⟩
      rw [hs, ht] at hout hstate
      cases hout
      cases outcome with
      | none => exact ⟨rfl, hstate, rfl⟩
      | some d => exact ⟨rfl, hstate, rfl⟩
  | test r =>
      obtain ⟨hout, hstate⟩ := h.state.run hclosed hstep hreached
      have hback : s.state.place.IsIn (lib.run r s.state).2.cursor.source := by
        rw [(lib.run_forward r s.state).source]
        exact h.state.ready.place
      refine ⟨congrArg (Option.map Derivation.length) hout, ?_, h.events⟩
      change State.Shadows lib ((lib.run r s.state).2.moveTo s.state.place)
        ((lib.run r t.state).2.moveTo t.state.place)
      rw [h.state.place]
      exact hstate.moveTo hback
  | moveTo offset =>
      cases hat : Place.at? s.state.cursor.source offset with
      | none =>
          have hat' : Place.at? t.state.cursor.source offset = none := by
            rw [h.state.source, hat]
          simp only [Session.perform, hat, hat']
          exact ⟨trivial, h⟩
      | some p =>
          obtain ⟨hp, -⟩ := Place.at?_eq_some_iff.1 hat
          have hat' : Place.at? t.state.cursor.source offset = some p := by
            rw [h.state.source, hat]
          simp only [Session.perform, hat, hat']
          exact ⟨trivial, h.state.moveTo hp, h.events⟩
  | bare _ | reset | clear | renew => cases hstep

theorem Shadows.performAll (hclosed : lib.Closed) {steps : List Step} (h : Shadows lib s t)
    (hsteps : ∀ step ∈ steps, step.Runs lib)
    (hreached : (s.performAll lib steps).2.state.cursor.reachedLimit = false) :
    (t.performAll lib steps).1 = (s.performAll lib steps).1 ∧
      Shadows lib (s.performAll lib steps).2 (t.performAll lib steps).2 := by
  induction steps generalizing s t with
  | nil => exact ⟨rfl, h⟩
  | cons step steps ih =>
      obtain ⟨hstep, hrest⟩ := List.forall_mem_cons.1 hsteps
      have hlater := later_performAll hrest (s.perform lib step).2
      obtain ⟨hresult, hnext⟩ := h.perform hclosed hstep (hlater.not_reachedLimit hreached)
      obtain ⟨hresults, hend⟩ := ih hnext hrest hreached
      refine ⟨?_, hend⟩
      simp only [Session.performAll]
      rw [hresult, hresults]

end Session

namespace Library

variable {lib : Library}

/-- A parse with a memo makes the same of the outcome as one without, unless that one reports a
limit. -/
theorem parse_memoize (hclosed : lib.Closed) {g : Nat} {text : String} {options : ParseOptions}
    (hlimits : ¬ LimitError (lib.parse g text { options with memoize := false })) :
    lib.parse g text { options with memoize := true } =
      lib.parse g text { options with memoize := false } := by
  cases hroot : lib.parseRoot g options.root with
  | none => simp only [parse, parseLogged, hroot]
  | some root =>
      cases hcursor : Cursor.at? text.toList options.startOffset with
      | none => simp only [parse, parseLogged, hroot, hcursor]
      | some cursor =>
          let plain : ParseOptions := { options with memoize := false }
          let memoized : ParseOptions := { options with memoize := true }
          have hplain : lib.parse g text plain = _ := parse_eq hroot hcursor
          have hmemo : lib.parse g text memoized = _ := parse_eq hroot hcursor
          have hplace := Cursor.isIn_of_at?_eq_some hcursor
          let limited := (cursor.withCallLimit options.callLimit).withMaxDepth options.maxDepth
          have hplace' : limited.place.IsIn limited.source := hplace
          have hreached : (lib.run root (parseStart plain cursor)).2.cursor.reachedLimit =
              false := by
            rw [hplain, limitError_parseResult_iff, Bool.not_eq_true] at hlimits
            exact hlimits
          have hstart : State.Shadows lib (parseStart plain cursor) (parseStart memoized cursor) :=
            State.Shadows.start hplace' rfl true
          obtain ⟨hout, hend⟩ := hstart.run hclosed (hclosed.knows_parseRoot hroot) hreached
          rw [hplain, hmemo, parseResult_of_unlimited hreached,
            parseResult_of_unlimited hend.unlimited, hout, hend.furthest]
          rfl

/-- In a session from any place of a text, as long as the one without a memo exceeds no limit, the
one with a memo exceeds none either, its steps have the same results and add the same events, and
it is at the same place and got equally far. Since this holds of any number of steps, it holds
after every one. A parse with a memo has the result of a parse without one unless that reports a
limit. -/
theorem memo_transparent (hlib : lib.Built) :
    (∀ (cursor : Cursor) (steps : List Session.Step), cursor.place.IsIn cursor.source →
      (∀ step ∈ steps, step.Runs lib) →
      ((Session.start cursor false).performAll lib steps).2.state.cursor.reachedLimit = false →
      ∃ plain memoized results,
        (Session.start cursor false).performAll lib steps = (results, plain) ∧
        (Session.start cursor true).performAll lib steps = (results, memoized) ∧
        memoized.state.cursor.reachedLimit = false ∧ memoized.events = plain.events ∧
        memoized.state.place = plain.state.place ∧
        memoized.state.cursor.furthest = plain.state.cursor.furthest) ∧
    ∀ (g : Nat) (text : String) (options : ParseOptions),
      ¬ LimitError (lib.parse g text { options with memoize := false }) →
      lib.parse g text { options with memoize := true } =
        lib.parse g text { options with memoize := false } := by
  have hclosed := hlib.closed
  refine ⟨fun cursor steps hplace hsteps hreached => ?_, fun g text options hlimits => ?_⟩
  · have hunlimited := (Session.later_performAll hsteps _).not_reachedLimit hreached
    have hstart : Session.Shadows lib (.start cursor false) (.start cursor true) :=
      ⟨State.Shadows.start hplace hunlimited true, rfl⟩
    obtain ⟨hresults, hend⟩ := hstart.performAll hclosed hsteps hreached
    refine ⟨_, _, _, rfl, ?_, hend.state.unlimited, hend.events, hend.state.place,
      hend.state.furthest⟩
    rw [← hresults]
  · exact parse_memoize hclosed hlimits

/-- Brackets read twice from the same place, and a parse of them. -/
theorem memo_transparent_brackets :
    (∃ plain memoized results,
      (Session.start (.new "(())".toList) false).performAll bracketLibrary
          [.test ⟨0, 4⟩, .exec ⟨0, 4⟩, .moveTo 1, .exec ⟨0, 4⟩] = (results, plain) ∧
        (Session.start (.new "(())".toList) true).performAll bracketLibrary
          [.test ⟨0, 4⟩, .exec ⟨0, 4⟩, .moveTo 1, .exec ⟨0, 4⟩] = (results, memoized) ∧
        memoized.state.cursor.reachedLimit = false ∧ memoized.events = plain.events ∧
        memoized.state.place = plain.state.place ∧
        memoized.state.cursor.furthest = plain.state.cursor.furthest) ∧
      bracketLibrary.parse 0 "(())" { memoize := true } =
        bracketLibrary.parse 0 "(())" { memoize := false } := by
  have hsteps : ∀ step ∈ [Session.Step.test ⟨0, 4⟩, .exec ⟨0, 4⟩, .moveTo 1, .exec ⟨0, 4⟩],
      step.Runs bracketLibrary := by
    intro step hstep
    rcases hstep with _ | ⟨_, _ | ⟨_, _ | ⟨_, _ | ⟨_, hnil⟩⟩⟩⟩
    · exact bracketLibrary_knows
    · exact bracketLibrary_knows
    · trivial
    · exact bracketLibrary_knows
    · cases hnil
  have hreached : ((Session.start (.new "(())".toList) false).performAll bracketLibrary
      [.test ⟨0, 4⟩, .exec ⟨0, 4⟩, .moveTo 1, .exec ⟨0, 4⟩]).2.state.cursor.reachedLimit =
        false := by decide +kernel
  have hok : (bracketLibrary.parse 0 "(())" { memoize := false }).toOption.isSome = true := by
    decide +kernel
  have hlimits := not_limitError_of_isSome hok
  exact ⟨(memo_transparent bracketLibrary_built).1 (.new "(())".toList) _
      (Place.isIn_start "(())".toList) hsteps hreached,
    (memo_transparent bracketLibrary_built).2 0 "(())" {} hlimits⟩

end Library

end Peg
