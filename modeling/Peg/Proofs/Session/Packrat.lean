import Mathlib.Data.Finset.Prod
import Peg.Proofs.Grammar.Scope
import Peg.Proofs.Semantics.Packrat
import Peg.Proofs.Session.Replay

/-!
# Evaluations in a session

In a session with a memo that only runs rules and moves the cursor, as long as no limit is exceeded,
no rule is evaluated twice at an offset: there are as many outcomes recorded as there were misses.
So the rules and the places of the text bound the number of evaluations, whatever is asked for how
often. Main statement: `Session.evaluations`.
-/

namespace Peg

/-! ## Offsets of places -/

namespace Place

/-- The offsets of the places of a text. -/
def offsets (text : List Char) : Finset Nat :=
  (Finset.range (text.length + 1)).image fun n => byteLength (text.take n)

theorem IsIn.mem_offsets {p : Place} {text : List Char} (h : p.IsIn text) :
    p.offset ∈ offsets text := by
  obtain ⟨before, rfl, hoffset⟩ := h
  refine Finset.mem_image.2 ⟨before.length, ?_, ?_⟩
  · rw [Finset.mem_range, List.length_append]
    omega
  · rw [List.take_left, hoffset]

theorem card_offsets_le (text : List Char) : (offsets text).card ≤ text.length + 1 :=
  Finset.card_image_le.trans_eq (Finset.card_range _)

end Place

theorem Memo.size_le {m : Memo} {rules : Finset RuleRef} {offsets : Finset Nat}
    (h : ∀ r offset, m.outcome? r offset ≠ none → r ∈ rules ∧ offset ∈ offsets) :
    m.table.size ≤ rules.card * offsets.card := by
  have hsubset : m.table.keys.toFinset ⊆ rules ×ˢ offsets := by
    rintro ⟨r, offset⟩ hkey
    rw [List.mem_toFinset, Std.HashMap.mem_keys, Std.HashMap.mem_iff_isSome_getElem?] at hkey
    exact Finset.mem_product.2 (h r offset (Option.isSome_iff_ne_none.1 hkey))
  calc m.table.size = m.table.keys.length := Std.HashMap.length_keys.symm
    _ = m.table.keys.toFinset.card := (List.toFinset_card_of_nodup Std.HashMap.nodup_keys).symm
    _ ≤ (rules ×ˢ offsets).card := Finset.card_le_card hsubset
    _ = rules.card * offsets.card := Finset.card_product rules offsets

namespace Session

/-! ## Executions asked for -/

/-- How many executions a step asks for. -/
def askedBy (lib : Library) (s : Session) : Step → Nat
  | .exec r | .test r => lib.asked s.state.cursor.nesting.room r s.state
  | .bare r =>
    match lib.rule? r with
    | none => 0
    | some rule =>
      (lib.asked s.state.cursor.nesting.room).perform (lib.exec s.state.cursor.nesting.room) r
        s.state rule.kind
  | .moveTo _ | .reset | .clear | .renew => 0

def asked (lib : Library) : Session → List Step → Nat
  | _, [] => 0
  | s, step :: steps => s.askedBy lib step + (s.perform lib step).2.asked lib steps

variable {lib : Library} {text : List Char} {s : Session}

theorem total_perform {step : Step} (hstep : step.Runs lib) (hs : s.state.memo.isSome) :
    (s.perform lib step).2.state.stats.total = s.state.stats.total + s.askedBy lib step := by
  cases step with
  | exec r =>
      rw [perform_exec_state]
      exact (lib.total_exec _).total r s.state hs
  | test r => exact (lib.total_exec _).test r hs
  | moveTo offset =>
      simp only [Session.perform]
      split <;> rfl
  | bare _ | reset | clear | renew => cases hstep

theorem total_performAll {steps : List Step} (hsteps : ∀ step ∈ steps, step.Runs lib)
    (hs : s.state.memo.isSome) :
    (s.performAll lib steps).2.state.stats.total = s.state.stats.total + s.asked lib steps := by
  induction steps generalizing s with
  | nil => rfl
  | cons step steps ih =>
      obtain ⟨hstep, hrest⟩ := List.forall_mem_cons.1 hsteps
      have hs' : (s.perform lib step).2.state.memo.isSome := by
        rw [(later_perform hstep.ne_reset s).memo]
        exact hs
      simp only [performAll, asked]
      rw [ih hrest hs', total_perform hstep hs, Nat.add_assoc]

/-! ## Outcomes recorded -/

def Step.rules : Step → List RuleRef
  | .exec r | .test r | .bare r => [r]
  | .moveTo _ | .reset | .clear | .renew => []

theorem Step.Runs.knows {step : Step} (h : step.Runs lib) : step.Knows lib := by
  cases step with
  | exec r | test r => exact h
  | moveTo _ => trivial
  | bare _ | reset | clear | renew => cases h

section Learns

variable {C : RuleRef → Prop} (hclosed : lib.Closed)
  (htargets : ∀ r rule, C r → lib.rule? r = some rule → ∀ t ∈ rule.kind.targets r, C t)

include hclosed htargets

theorem run_learns {r : RuleRef} (hknows : lib.Knows r) (hr : C r) {s : State} (hs : lib.Ready s)
    (hu : (lib.run r s).2.cursor.reachedLimit = false) :
    ∃ n, s.Learns lib C n (lib.run r s).2 := by
  obtain ⟨e, he, -⟩ := (Library.run_follows hclosed hknows hs).leads.means hu
  exact ⟨_, (Library.exec_learns hclosed htargets _).learns r s _ e hr hs he hu⟩

theorem perform_learns (h : s.Valid lib text) {step : Step} (hstep : step.Runs lib)
    (hC : ∀ r ∈ step.rules, C r)
    (hu : (s.perform lib step).2.state.cursor.reachedLimit = false) :
    ∃ n, s.state.Learns lib C n (s.perform lib step).2.state := by
  cases step with
  | exec r =>
      rw [perform_exec_state] at hu ⊢
      exact run_learns hclosed htargets hstep (hC r List.mem_cons_self) h.ready hu
  | test r =>
      obtain ⟨n, hlearns⟩ :=
        run_learns hclosed htargets hstep (hC r List.mem_cons_self) h.ready hu
      exact ⟨n, hlearns.change rfl rfl rfl⟩
  | moveTo offset =>
      refine ⟨0, (State.Learns.refl s.state).change rfl rfl ?_⟩
      simp only [Session.perform]
      split <;> rfl
  | bare _ | reset | clear | renew => cases hstep

theorem performAll_learns {steps : List Step} (h : s.Valid lib text)
    (hsteps : ∀ step ∈ steps, step.Runs lib) (hC : ∀ step ∈ steps, ∀ r ∈ step.rules, C r)
    (hu : (s.performAll lib steps).2.state.cursor.reachedLimit = false) :
    ∃ n, s.state.Learns lib C n (s.performAll lib steps).2.state := by
  induction steps generalizing s with
  | nil => exact ⟨0, State.Learns.refl s.state⟩
  | cons step steps ih =>
      obtain ⟨hstep, hrest⟩ := List.forall_mem_cons.1 hsteps
      obtain ⟨hCstep, hCrest⟩ := List.forall_mem_cons.1 hC
      have hu' : (s.perform lib step).2.state.cursor.reachedLimit = false :=
        (later_performAll hrest _).not_reachedLimit hu
      obtain ⟨n, hfirst⟩ := perform_learns hclosed htargets h hstep hCstep hu'
      obtain ⟨m, hothers⟩ := ih (h.perform hclosed hstep.knows) hrest hCrest hu
      exact ⟨max n m, (hfirst.mono (Nat.le_max_left n m)).trans (later_perform hstep.ne_reset s)
        (hothers.mono (Nat.le_max_right n m))⟩

end Learns

/-! ## Outcomes answered -/

theorem perform_exec_of_outcome {r : RuleRef} {outcome : Option Derivation}
    (h : s.state.outcome? r s.state.place.offset = some outcome) :
    ∃ state, s.perform lib (.exec r) =
        (outcome.map Derivation.length,
          { state, events := outcome.elim s.events (·.emit s.events) }) ∧
      state.place = s.state.place.after outcome ∧
      state.recorded = s.state.recorded ∧
      state.cursor.calls = s.state.cursor.calls ∧
      state.stats = s.state.stats.answered outcome := by
  obtain ⟨memo, hmemo, hhit⟩ := Option.bind_eq_some_iff.1 h
  have hsome : s.state.memo.isSome := by
    rw [hmemo]
    rfl
  obtain ⟨inner, hexec, -⟩ := lib.exec_eq_memoized s.state.cursor.nesting.room
  have hrun : lib.run r s.state = Exec.memoized (Exec.limited lib inner) r s.state := by
    rw [← hexec]
    rfl
  simp only [perform, hrun]
  cases outcome with
  | none =>
      rw [Exec.memoized_of_failure_hit hmemo hhit]
      exact ⟨_, rfl, rfl, State.recorded_countFailureHit, rfl, State.stats_countFailureHit hsome⟩
  | some d =>
      rw [Exec.memoized_of_hit hmemo hhit]
      exact ⟨_, rfl, rfl, State.recorded_noteReplay r s.state.place.offset, rfl,
        State.stats_noteReplay r s.state.place.offset hsome⟩

theorem outcome?_perform {step : Step} (hstep : step.Runs lib) (hs : s.state.memo.isSome)
    (hu : (s.perform lib step).2.state.cursor.reachedLimit = false) :
    ∀ r ∈ step.rules, (s.perform lib step).2.state.outcome? r s.state.place.offset =
      some (lib.run r s.state).1 := by
  intro r hr
  cases step with
  | exec r =>
      obtain rfl := List.mem_singleton.1 hr
      rw [perform_exec_state] at hu ⊢
      obtain ⟨memo, hmemo, hrecorded⟩ := Library.recorded_of_run hs hu
      exact Option.bind_eq_some_iff.2 ⟨memo, hmemo, hrecorded⟩
  | test r =>
      obtain rfl := List.mem_singleton.1 hr
      have hu' : (lib.run r s.state).2.cursor.reachedLimit = false := hu
      obtain ⟨memo, hmemo, hrecorded⟩ := Library.recorded_of_run hs hu'
      exact Option.bind_eq_some_iff.2 ⟨memo, hmemo, hrecorded⟩
  | moveTo _ => cases hr
  | bare _ | reset | clear | renew => cases hstep

theorem outcome?_start (cursor : Cursor) (r : RuleRef) (offset : Nat) :
    (start cursor true).state.outcome? r offset = none := by
  simp [start, State.start, State.outcome?, Memo.outcome?]

/-! ## Bounds -/

theorem recorded_le {g : Nat} (h : s.Valid lib text)
    (hrules : ∀ r offset, s.state.outcome? r offset ≠ none → r ∈ lib.scope g) :
    s.state.recorded ≤ (lib.scope g).card * (text.length + 1) := by
  cases hmemo : s.state.memo with
  | none => simp [State.recorded, hmemo]
  | some memo =>
      have hsize : memo.table.size ≤ (lib.scope g).card * (Place.offsets text).card := by
        refine Memo.size_le fun r offset hne => ⟨hrules r offset ?_, ?_⟩
        · simpa [State.outcome?, hmemo] using hne
        · obtain ⟨outcome, hout⟩ := Option.ne_none_iff_exists'.1 hne
          obtain ⟨p, -, hp, rfl, -, -⟩ := h.ready.memo memo hmemo r offset outcome hout
          rw [h.source] at hp
          exact hp.mem_offsets
      have hrecorded : s.state.recorded = memo.table.size := by simp [State.recorded, hmemo]
      rw [hrecorded]
      exact hsize.trans (Nat.mul_le_mul_left _ (Place.card_offsets_le text))

/-- In a session with a memo from any place of a text, after any steps that exceed no limit, there
are as many outcomes recorded as there were misses, so no rule was evaluated twice at an offset, and
the statistics count the executions asked for. What is recorded is answered without an evaluation by
what was recorded, and what is run is recorded. If the steps run rules in the scope of a grammar,
there are no more evaluations than rules in this scope times places in the text. -/
theorem evaluations (hlib : lib.Built) {cursor : Cursor}
    (hplace : cursor.place.IsIn cursor.source) (hstart : cursor.start.IsIn cursor.source)
    {steps : List Step} (hsteps : ∀ step ∈ steps, step.Runs lib)
    (hs : ((start cursor true).performAll lib steps).2 = s)
    (hreached : s.state.cursor.reachedLimit = false) :
    s.state.stats.misses = s.state.recorded ∧
      s.state.stats.total = (start cursor true).asked lib steps ∧
      (∀ r outcome, s.state.outcome? r s.state.place.offset = some outcome →
        ∃ state, s.perform lib (.exec r) =
            (outcome.map Derivation.length,
              { state, events := outcome.elim s.events (·.emit s.events) }) ∧
          state.place = s.state.place.after outcome ∧
          state.recorded = s.state.recorded ∧
          state.cursor.calls = s.state.cursor.calls ∧
          state.stats = s.state.stats.answered outcome) ∧
      (∀ step, step.Runs lib → (s.perform lib step).2.state.cursor.reachedLimit = false →
        ∀ r ∈ step.rules, (s.perform lib step).2.state.outcome? r s.state.place.offset =
          some (lib.run r s.state).1) ∧
      ∀ g, (∀ step ∈ steps, ∀ r ∈ step.rules, r ∈ lib.scope g) →
        s.state.stats.misses ≤ (lib.scope g).card * (cursor.source.length + 1) := by
  subst hs
  have hclosed := hlib.closed
  have hvalid : (start cursor true).Valid lib cursor.source := valid_start hplace hstart true
  have hknows : ∀ step ∈ steps, step.Knows lib := fun step hstep => (hsteps step hstep).knows
  have hmemo : ((start cursor true).performAll lib steps).2.state.memo.isSome := by
    rw [(later_performAll hsteps _).memo]
    rfl
  have hcount : ((start cursor true).performAll lib steps).2.state.stats.misses =
      ((start cursor true).performAll lib steps).2.state.recorded := by
    obtain ⟨n, hlearns⟩ := performAll_learns (C := fun _ => True) hclosed
      (fun _ _ _ _ _ _ => trivial) hvalid hsteps (fun _ _ _ _ => trivial) hreached
    exact hlearns.count.trans (Nat.zero_add _)
  refine ⟨hcount, ?_, fun r outcome => perform_exec_of_outcome,
    fun step hstep => outcome?_perform hstep hmemo, fun g hrules => ?_⟩
  · rw [total_performAll hsteps rfl]
    exact Nat.zero_add _
  · obtain ⟨n, hlearns⟩ := performAll_learns (C := fun r => r ∈ lib.scope g) hclosed
      (fun r rule hr hrule => hlib.targets_mem_scope hr hrule) hvalid hsteps hrules hreached
    rw [hcount]
    exact recorded_le (hvalid.performAll hclosed hknows) fun r offset hne =>
      (hlearns.fresh r offset (outcome?_start cursor r offset) hne).1

/-- Brackets around brackets that were tested are answered when they are read. -/
theorem evaluations_brackets :
    ∃ s outcome, ((start (.new "(())".toList) true).performAll bracketLibrary
        [.test ⟨0, 4⟩]).2 = s ∧
      s.state.stats.misses = s.state.recorded ∧
      s.state.stats.total =
        (start (.new "(())".toList) true).asked bracketLibrary [.test ⟨0, 4⟩] ∧
      s.state.outcome? ⟨0, 4⟩ 0 = some outcome ∧
      (s.perform bracketLibrary (.exec ⟨0, 4⟩)).2.state.stats = s.state.stats.answered outcome ∧
      s.state.stats.misses ≤ (bracketLibrary.scope 0).card * (4 + 1) := by
  let begin : Session := start (.new "(())".toList) true
  let s : Session := (begin.perform bracketLibrary (.test ⟨0, 4⟩)).2
  have hs : (begin.performAll bracketLibrary [.test ⟨0, 4⟩]).2 = s := rfl
  have hplace := Place.isIn_start "(())".toList
  have hsteps : ∀ step ∈ [Step.test ⟨0, 4⟩], step.Runs bracketLibrary :=
    List.forall_mem_singleton.2 bracketLibrary_knows
  have hscope : ∀ step ∈ [Step.test ⟨0, 4⟩], ∀ r ∈ step.rules, r ∈ bracketLibrary.scope 0 :=
    List.forall_mem_singleton.2 (List.forall_mem_singleton.2
      (Library.mem_scope_iff.2 ⟨Library.mem_inclusions_self, bracketLibrary_knows⟩))
  have hplain : ((start (.new "(())".toList) false).perform bracketLibrary
      (.test ⟨0, 4⟩)).2.state.cursor.reachedLimit = false := by decide +kernel
  have hshadows : Shadows bracketLibrary (start (.new "(())".toList) false) begin :=
    ⟨State.Shadows.start hplace rfl true, rfl⟩
  obtain ⟨-, hend⟩ := hshadows.perform bracketLibrary_built.closed
    (hsteps _ List.mem_cons_self) hplain
  obtain ⟨hcount, htotal, hanswers, -, hbound⟩ :=
    evaluations bracketLibrary_built hplace hplace hsteps hs hend.state.unlimited
  have houtcome : s.state.outcome? ⟨0, 4⟩ 0 = some (bracketLibrary.run ⟨0, 4⟩ begin.state).1 :=
    outcome?_perform (hsteps _ List.mem_cons_self) rfl hend.state.unlimited _ List.mem_cons_self
  obtain ⟨state, hperform, -, -, -, hstats⟩ := hanswers _ _ houtcome
  refine ⟨s, _, hs, hcount, htotal, houtcome, ?_, hbound 0 hscope⟩
  rw [hperform]
  exact hstats

end Session

end Peg
