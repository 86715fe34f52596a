import Peg.Proofs.Engine.Charges
import Peg.Proofs.Session.Basic

/-!
# The limits in a session

Every step of a session that runs a rule goes through moments that keep the limits, and gives back
all the levels that it takes, whether the rule matches, fails or is refused. Main statement:
`Session.limits_balanced`.
-/

namespace Peg

namespace Session

/-- The moment at which a step begins to run a rule, none if the step runs no rule. -/
def Step.begins? (lib : Library) (s : State) : Step → Option Moment
  | .exec r => some ⟨.consult r, [], s⟩
  | .test r => some ⟨.consult r, [.back s.place], s⟩
  | .bare r => (lib.rule? r).map fun rule => ⟨.perform r rule.kind, [], s⟩
  | .moveTo _ | .reset | .clear | .renew => none

variable {lib : Library} {s : Session} {step : Step} {first : Moment}

theorem Step.begins?_state {s : State} (h : step.begins? lib s = some first) :
    first.state = s ∧ first.entered = 0 := by
  cases step with
  | exec r | test r =>
      cases h
      exact ⟨rfl, rfl⟩
  | bare r =>
      obtain ⟨rule, -, rfl⟩ := Option.map_eq_some_iff.1 h
      exact ⟨rfl, rfl⟩
  | moveTo _ | reset | clear | renew => cases h

theorem collect_fst (events : Array Event) (result : Option Derivation × State) :
    (collect events result).1 = result.1.map Derivation.length := by
  obtain ⟨outcome, state⟩ := result
  cases outcome <;> rfl

theorem precedes_perform (h : step.begins? lib s.state = some first) :
    ∃ outcome, (s.perform lib step).1 = outcome.map Derivation.length ∧
      lib.Precedes first ⟨.handBack outcome, [], (s.perform lib step).2.state⟩ := by
  cases step with
  | exec r =>
      cases h
      refine ⟨(lib.run r s.state).1, collect_fst s.events _, ?_⟩
      rw [perform_exec_state]
      exact lib.precedes_run r [] s.state
  | test r =>
      cases h
      exact ⟨(lib.run r s.state).1, rfl, lib.precedes_test r [] s.state⟩
  | bare r =>
      obtain ⟨rule, hrule, rfl⟩ := Option.map_eq_some_iff.1 h
      refine ⟨(lib.runBare r s.state).1, collect_fst s.events _, ?_⟩
      rw [perform_bare_state]
      exact lib.precedes_runBare hrule [] s.state
  | moveTo _ | reset | clear | renew => cases h

/-- The limits are balanced and hold in every step that runs a rule from a state within them, with a
memo and without one, at every moment up to the one with the state that the step leaves. What was
exceeded stays exceeded until the session starts again. -/
theorem limits_balanced (lib : Library) (s : Session)
    (hdepth : s.state.cursor.nesting.depth ≤ s.state.cursor.nesting.limit)
    (hmade : ∀ limit ∈ s.state.cursor.calls.limit, s.state.cursor.calls.made ≤ limit) :
    (∀ step first, Step.begins? lib s.state step = some first → ∃ outcome,
      (s.perform lib step).1 = outcome.map Derivation.length ∧
      lib.Precedes first ⟨.handBack outcome, [], (s.perform lib step).2.state⟩ ∧
      lib.Accounts first ⟨.handBack outcome, [], (s.perform lib step).2.state⟩) ∧
    ∀ step, step ≠ .reset →
      (s.state.cursor.calls.exceeded = true →
        (s.perform lib step).2.state.cursor.calls.exceeded = true) ∧
      (s.state.cursor.nesting.exceeded = true →
        (s.perform lib step).2.state.cursor.nesting.exceeded = true) := by
  constructor
  · intro step first hfirst
    obtain ⟨hstate, hentered⟩ := Step.begins?_state hfirst
    obtain ⟨outcome, hlength, hprecedes⟩ := precedes_perform hfirst
    rw [← hstate] at hdepth hmade
    exact ⟨outcome, hlength, hprecedes,
      Library.accounts_of_precedes hprecedes hentered hdepth hmade⟩
  · intro step hstep
    have hlater : s.state.Later (s.perform lib step).2.state := later_perform hstep s
    have hcalls := hlater.callsRefused
    have hnesting := hlater.nestingRefused
    simp only [CallBudget.exceeded, Nesting.exceeded, bne_iff_ne]
    omega

/-- Brackets that take more calls than there are: a call is refused, no level is, and in the end the
depth is zero again. -/
theorem limits_balanced_brackets :
    ∃ s : Session, s.state.cursor.calls.limit = some 12 ∧
      s.state.cursor.nesting.depth ≤ s.state.cursor.nesting.limit ∧
      (∀ limit ∈ s.state.cursor.calls.limit, s.state.cursor.calls.made ≤ limit) ∧
      ∃ first outcome last, Step.begins? bracketLibrary s.state (.exec ⟨0, 4⟩) = some first ∧
        s.perform bracketLibrary (.exec ⟨0, 4⟩) = (outcome.map Derivation.length, last) ∧
        bracketLibrary.Accounts first ⟨.handBack outcome, [], last.state⟩ ∧
        last.state.cursor.nesting.depth = 0 ∧
        (∃ m, bracketLibrary.Precedes first m ∧ bracketLibrary.charge m = .callRefused) ∧
        ¬∃ m, bracketLibrary.Precedes first m ∧ bracketLibrary.charge m = .levelRefused := by
  let s : Session :=
    .start (((Cursor.new "((()))".toList).withCallLimit (some 12)).withMaxDepth 30) false
  let last := (s.perform bracketLibrary (.exec ⟨0, 4⟩)).2
  have hdepth : s.state.cursor.nesting.depth ≤ s.state.cursor.nesting.limit := Nat.zero_le 30
  have hmade : ∀ limit ∈ s.state.cursor.calls.limit, s.state.cursor.calls.made ≤ limit :=
    fun limit _ => Nat.zero_le limit
  have hcalls : last.state.cursor.calls.exceeded = true := by decide +kernel
  have hlevels : last.state.cursor.nesting.exceeded = false := by decide +kernel
  obtain ⟨hsteps, -⟩ := limits_balanced bracketLibrary s hdepth hmade
  obtain ⟨outcome, hlength, -, haccounts⟩ := hsteps (.exec ⟨0, 4⟩) _ rfl
  refine ⟨s, rfl, hdepth, hmade, _, outcome, last, rfl, Prod.ext hlength rfl, haccounts,
    haccounts.depth, (haccounts.callsRefused rfl).1 hcalls, fun hrefused => ?_⟩
  have hlevels' := (haccounts.nestingRefused rfl).2 hrefused
  exact Bool.false_ne_true (hlevels.symm.trans hlevels')

end Session

end Peg
