import Peg.Proofs.Engine.Step

/-!
# What every run keeps

A run leaves the text, the limits and the depth of nesting as they are, and the counts of
executions, of refusals and the furthest offset only grow, the first of them up to its limit, without
which no call is refused.
`State.Later` states this for two states; it holds from the beginning to the end of every
execution, refused or not, with and without a memo (`Library.exec_forward`).
-/

namespace Peg

theorem CallBudget.isSpent_eq_false_iff {b : CallBudget} :
    b.isSpent = false ↔ ∀ limit ∈ b.limit, b.made < limit := by
  unfold CallBudget.isSpent
  cases b.limit with
  | none => simp
  | some limit =>
      simp only [Option.any_some, decide_eq_false_iff_not, Option.mem_some_iff, forall_eq']
      omega

theorem CallBudget.exists_le_of_isSpent {b : CallBudget} (h : b.isSpent = true) :
    ∃ limit ∈ b.limit, limit ≤ b.made := by
  unfold CallBudget.isSpent at h
  rw [Option.any_eq_true] at h
  obtain ⟨limit, hlimit, hle⟩ := h
  exact ⟨limit, hlimit, of_decide_eq_true hle⟩

namespace State

/-- The state `t` can come after `s` in a run, between executions at the same depth. -/
structure Later (s t : State) : Prop where
  source : t.cursor.source = s.cursor.source
  start : t.cursor.start = s.cursor.start
  furthest : s.cursor.furthest ≤ t.cursor.furthest
  callLimit : t.cursor.calls.limit = s.cursor.calls.limit
  made : s.cursor.calls.made ≤ t.cursor.calls.made
  budget : ∀ limit ∈ s.cursor.calls.limit, s.cursor.calls.made ≤ limit → t.cursor.calls.made ≤ limit
  callsRefused : s.cursor.calls.refused ≤ t.cursor.calls.refused
  allowed : s.cursor.calls.limit = none → t.cursor.calls.refused = s.cursor.calls.refused
  nestingLimit : t.cursor.nesting.limit = s.cursor.nesting.limit
  depth : t.cursor.nesting.depth = s.cursor.nesting.depth
  deepest : s.cursor.nesting.deepest ≤ t.cursor.nesting.deepest
  nestingRefused : s.cursor.nesting.refused ≤ t.cursor.nesting.refused
  memo : t.memo.isSome = s.memo.isSome

namespace Later

theorem refl (s : State) : s.Later s :=
  ⟨rfl, rfl, Nat.le_refl _, rfl, Nat.le_refl _, fun _ _ h => h, Nat.le_refl _, fun _ => rfl, rfl,
    rfl, Nat.le_refl _, Nat.le_refl _, rfl⟩

theorem trans {s t u : State} (h : s.Later t) (h' : t.Later u) : s.Later u :=
  ⟨h'.source.trans h.source, h'.start.trans h.start, Nat.le_trans h.furthest h'.furthest,
    h'.callLimit.trans h.callLimit, Nat.le_trans h.made h'.made,
    fun limit hlimit hs => h'.budget limit (h.callLimit ▸ hlimit) (h.budget limit hlimit hs),
    Nat.le_trans h.callsRefused h'.callsRefused,
    fun hlimit => (h'.allowed (h.callLimit.trans hlimit)).trans (h.allowed hlimit),
    h'.nestingLimit.trans h.nestingLimit, h'.depth.trans h.depth, Nat.le_trans h.deepest h'.deepest,
    Nat.le_trans h.nestingRefused h'.nestingRefused, h'.memo.trans h.memo⟩

theorem reachedLimit {s t : State} (h : s.Later t) (hs : s.cursor.reachedLimit = true) :
    t.cursor.reachedLimit = true := by
  have hcalls := h.callsRefused
  have hnesting := h.nestingRefused
  simp only [Cursor.reachedLimit, CallBudget.exceeded, Nesting.exceeded, Bool.or_eq_true,
    bne_iff_ne] at hs ⊢
  omega

theorem not_reachedLimit {s t : State} (h : s.Later t) (ht : t.cursor.reachedLimit = false) :
    s.cursor.reachedLimit = false := by
  cases hs : s.cursor.reachedLimit with
  | false => rfl
  | true => rw [h.reachedLimit hs] at ht; cases ht

theorem memo_eq_none {s t : State} (h : s.Later t) (hs : s.memo = none) : t.memo = none := by
  have hmemo := h.memo
  rw [hs] at hmemo
  exact Option.isNone_iff_eq_none.1 (by simpa using hmemo)

end Later

/-! ## Single changes of a state -/

theorem later_moveTo (s : State) (p : Place) : s.Later (s.moveTo p) :=
  { Later.refl s with }

theorem later_advanceTo (s : State) (p : Place) : s.Later (s.advanceTo p) :=
  { Later.refl s with furthest := Nat.le_max_left _ _ }

theorem later_spendCall {s : State} (h : s.cursor.calls.isSpent = false) :
    s.Later s.spendCall :=
  { Later.refl s with
    made := Nat.le_succ _
    budget := fun limit hlimit _ => CallBudget.isSpent_eq_false_iff.1 h limit hlimit }

/-- A call is refused only because of a limit. -/
theorem later_refuseCall {s : State} (h : s.cursor.calls.isSpent = true) : s.Later s.refuseCall :=
  { Later.refl s with
    callsRefused := Nat.le_succ _
    allowed := fun hlimit => by
      obtain ⟨limit, hmem, -⟩ := CallBudget.exists_le_of_isSpent h
      rw [hlimit] at hmem
      cases hmem }

theorem later_refuseNesting (s : State) : s.Later s.refuseNesting :=
  { Later.refl s with nestingRefused := Nat.le_succ _ }

theorem later_countMiss (s : State) : s.Later s.countMiss :=
  { Later.refl s with memo := Option.isSome_map }

theorem later_countFailureHit (s : State) : s.Later s.countFailureHit :=
  { Later.refl s with memo := Option.isSome_map }

theorem later_noteReplay (s : State) (r : RuleRef) (offset : Nat) :
    s.Later (s.noteReplay r offset) :=
  { Later.refl s with memo := Option.isSome_map }

theorem later_remember (s : State) (r : RuleRef) (offset : Nat) (outcome : Option Derivation) :
    s.Later (s.remember r offset outcome) :=
  { Later.refl s with memo := Option.isSome_map }

theorem later_renew (s : State) : s.Later s.renew :=
  { Later.refl s with memo := Option.isSome_map }

theorem later_learn (s : State) (r : RuleRef) (offset : Nat) (outcome : Option Derivation) :
    s.Later (s.learn r offset outcome) := by
  unfold learn
  split
  · exact Later.refl s
  · exact later_remember s r offset outcome

theorem later_settle (s : State) (start : Place) (outcome : Option Derivation) :
    s.Later (s.settle start outcome).2 := by
  cases outcome with
  | none => exact later_moveTo s start
  | some d => exact later_advanceTo s (start.advance d.length)

theorem Later.leave {s t : State} (h : s.enter.Later t) : s.Later t.leave := by
  have hdepth : t.cursor.nesting.depth = s.cursor.nesting.depth + 1 := h.depth
  have hdeepest : max s.cursor.nesting.deepest (s.cursor.nesting.depth + 1) ≤
      t.cursor.nesting.deepest := h.deepest
  refine { h with depth := ?_, deepest := Nat.le_trans (Nat.le_max_left _ _) hdeepest }
  change t.cursor.nesting.depth - 1 = s.cursor.nesting.depth
  omega

end State

/-! ## Loops -/

namespace Exec

/-- Every execution ends in a state that can come after the one it began in. -/
def Forward (exec : Exec) : Prop := ∀ (r : RuleRef) (s : State), s.Later (exec r s).2

namespace Forward

variable {exec : Exec}

theorem test (h : exec.Forward) (r : RuleRef) (s : State) : s.Later (exec.test r s).2 :=
  (h r s).trans (State.later_moveTo _ _)

theorem all_head {rs : List RuleRef} (hrs : ∀ s : State, s.Later (exec.all rs s).2) (r : RuleRef)
    (s : State) : (exec r s).2.Later (exec.all (r :: rs) s).2 := by
  cases hr : (exec r s).1 with
  | none =>
      rw [Exec.all_cons_none rs hr]
      exact State.Later.refl _
  | some d =>
      rw [Exec.all_cons_some rs hr]
      exact hrs _

theorem all (h : exec.Forward) (rs : List RuleRef) (s : State) : s.Later (exec.all rs s).2 := by
  induction rs generalizing s with
  | nil => exact State.Later.refl s
  | cons r rs ih => exact (h r s).trans (all_head ih r s)

theorem firstOf_head {rs : List RuleRef} (hrs : ∀ s : State, s.Later (exec.firstOf rs s).2)
    (r : RuleRef) (s : State) : (exec r s).2.Later (exec.firstOf (r :: rs) s).2 := by
  cases hr : (exec r s).1 with
  | none =>
      rw [Exec.firstOf_cons_none rs hr]
      exact hrs _
  | some d =>
      rw [Exec.firstOf_cons_some rs hr]
      exact State.Later.refl _

theorem firstOf (h : exec.Forward) (rs : List RuleRef) (s : State) :
    s.Later (exec.firstOf rs s).2 := by
  induction rs generalizing s with
  | nil => exact State.Later.refl s
  | cons r rs ih => exact (h r s).trans (firstOf_head ih r s)

section Repeated

variable {r : RuleRef} {least : Nat} {most : Option Nat}

theorem repeated_head {unread : List Char}
    (hrest : ∀ c rest, unread = c :: rest → ∀ (count : Nat) done (s : State),
      s.Later (exec.repeated r least most rest count done s).2)
    {count : Nat} (hmost : most ≠ some count) (done : List Derivation) (s : State) :
    (exec r s).2.Later (exec.repeated r least most unread count done s).2 := by
  cases hr : (exec r s).1 with
  | none =>
      rw [Exec.repeated_none unread done hmost hr]
      exact State.Later.refl _
  | some d =>
      by_cases hd : d.length = 0
      · rw [Exec.repeated_empty unread done hmost hr hd]
        exact State.Later.refl _
      cases unread with
      | nil =>
          rw [Exec.repeated_nil done hmost hr hd]
          exact State.Later.refl _
      | cons c rest =>
          rw [Exec.repeated_cons c rest done hmost hr hd]
          exact hrest c rest rfl _ _ _

theorem repeated (h : exec.Forward) (unread : List Char) (count : Nat) (done : List Derivation)
    (s : State) : s.Later (exec.repeated r least most unread count done s).2 := by
  induction unread generalizing count done s with
  | nil =>
      by_cases hmost : most = some count
      · rw [Exec.repeated_full [] done hmost]
        exact State.Later.refl s
      · refine (h r s).trans (repeated_head (fun c rest hnil => ?_) hmost done s)
        cases hnil
  | cons c unread ih =>
      by_cases hmost : most = some count
      · rw [Exec.repeated_full (c :: unread) done hmost]
        exact State.Later.refl s
      · refine (h r s).trans (repeated_head (fun c' rest hcons => ?_) hmost done s)
        cases hcons
        exact ih

end Repeated

theorem upTo_head {stop : RuleRef} {rest : List Char}
    (hrest : ∀ c later, rest = c :: later → ∀ passed (s : State),
      s.Later (exec.upTo stop later passed s).2) (passed : Nat) (s : State) :
    (exec.test stop s).2.Later (exec.upTo stop rest passed s).2 := by
  cases hr : (exec stop s).1 with
  | some d =>
      rw [Exec.upTo_found rest passed hr]
      exact State.Later.refl _
  | none =>
      cases rest with
      | nil =>
          rw [Exec.upTo_nil passed hr]
          exact State.Later.refl _
      | cons c later =>
          rw [Exec.upTo_cons c later passed hr]
          exact (State.later_moveTo _ _).trans (hrest c later rfl _ _)

theorem upTo (h : exec.Forward) (stop : RuleRef) (rest : List Char) (passed : Nat) (s : State) :
    s.Later (exec.upTo stop rest passed s).2 := by
  induction rest generalizing passed s with
  | nil =>
      refine (h.test stop s).trans (upTo_head (fun c later hnil => ?_) passed s)
      cases hnil
  | cons c rest ih =>
      refine (h.test stop s).trans (upTo_head (fun c' later hcons => ?_) passed s)
      cases hcons
      exact ih

theorem perform (h : exec.Forward) (r : RuleRef) (s : State) (kind : Kind RuleRef) :
    s.Later (exec.perform r s kind).2 := by
  cases kind with
  | terminal matcher => exact State.Later.refl s
  | text literal ignoreCase => exact State.Later.refl s
  | sequence parts => exact h.all _ s
  | choice options => exact h.firstOf _ s
  | rep body least most => exact h.repeated _ 0 [] s
  | ahead body => exact h.test _ s
  | notAhead body => exact h.test _ s
  | upTo stop => exact (h.upTo _ _ 0 s).trans (State.later_moveTo _ _)
  | ref name target => exact h target s
  | inherited name target => exact h target s
  | label body => exact h _ s

/-! ## Executions -/

theorem limited_of_spent {lib : Library} {inner : Option Exec}
    (h : ∀ exec ∈ inner, exec.Forward) {r : RuleRef} {s : State}
    (hcalls : s.cursor.calls.isSpent = false) :
    s.spendCall.Later (Exec.limited lib inner r s).2 := by
  cases inner with
  | none =>
      rw [Exec.limited_none hcalls]
      exact State.later_refuseNesting _
  | some exec =>
      cases hnesting : s.cursor.nesting.exceeded with
      | true =>
          rw [Exec.limited_of_exceeded hcalls hnesting]
          exact State.later_refuseNesting _
      | false =>
          cases hrule : lib.rule? r with
          | none =>
              rw [Exec.limited_of_rule_none hcalls hnesting hrule]
              exact State.Later.refl _
          | some rule =>
              rw [Exec.limited_of_rule hcalls hnesting hrule]
              have hbody := (h exec rfl).perform r s.spendCall.enter rule.kind
              exact hbody.leave.trans (State.later_settle _ _ _)

theorem limited {lib : Library} {inner : Option Exec} (h : ∀ exec ∈ inner, exec.Forward) :
    (Exec.limited lib inner).Forward := by
  intro r s
  cases hcalls : s.cursor.calls.isSpent with
  | true =>
      rw [Exec.limited_of_isSpent inner hcalls]
      exact State.later_refuseCall hcalls
  | false => exact (State.later_spendCall hcalls).trans (limited_of_spent h hcalls)

theorem made_le_of_limited {lib : Library} {inner : Option Exec}
    (h : ∀ exec ∈ inner, exec.Forward) {r : RuleRef} {s : State}
    (hreached : (Exec.limited lib inner r s).2.cursor.reachedLimit = false) :
    ∀ limit ∈ s.cursor.calls.limit,
      (Exec.limited lib inner r s).2.cursor.calls.made ≤ limit := by
  intro limit hlimit
  cases hcalls : s.cursor.calls.isSpent with
  | true =>
      rw [Exec.limited_of_isSpent inner hcalls, State.reachedLimit_refuseCall] at hreached
      cases hreached
  | false =>
      have hlt := CallBudget.isSpent_eq_false_iff.1 hcalls limit hlimit
      exact (limited_of_spent h hcalls).budget limit hlimit hlt

theorem memoized (h : exec.Forward) : (Exec.memoized exec).Forward := by
  intro r s
  cases hmemo : s.memo with
  | none =>
      rw [Exec.memoized_of_none hmemo]
      exact h r s
  | some memo =>
      rcases hhit : memo.outcome? r s.place.offset with _ | _ | d
      · rw [Exec.memoized_of_miss hmemo hhit]
        have hrun := (State.later_countMiss s).trans (h r s.countMiss)
        exact hrun.trans (State.later_learn _ _ _ _)
      · rw [Exec.memoized_of_failure_hit hmemo hhit]
        exact State.later_countFailureHit s
      · rw [Exec.memoized_of_hit hmemo hhit]
        exact (State.later_noteReplay s _ _).trans (State.later_advanceTo _ _)

end Forward

end Exec

namespace Library

theorem exec_forward (lib : Library) (room : Nat) : (lib.exec room).Forward := by
  induction room with
  | zero => exact (Exec.Forward.limited (fun _ h => by cases h)).memoized
  | succ room ih =>
      refine (Exec.Forward.limited fun exec h => ?_).memoized
      cases h
      exact ih

theorem run_forward (lib : Library) : lib.run.Forward := fun r s => lib.exec_forward _ r s

theorem exec_eq_memoized (lib : Library) (room : Nat) :
    ∃ inner, lib.exec room = Exec.memoized (Exec.limited lib inner) ∧
      ∀ exec ∈ inner, exec.Forward := by
  cases room with
  | zero => exact ⟨none, rfl, fun _ h => by cases h⟩
  | succ room =>
      refine ⟨some (lib.exec room), rfl, fun exec h => ?_⟩
      cases h
      exact lib.exec_forward room

theorem made_le_of_exec {lib : Library} {room : Nat} {r : RuleRef} {s : State}
    (hmemo : s.memo = none) (hreached : (lib.exec room r s).2.cursor.reachedLimit = false) :
    ∀ limit ∈ s.cursor.calls.limit, (lib.exec room r s).2.cursor.calls.made ≤ limit := by
  obtain ⟨inner, hexec, hinner⟩ := lib.exec_eq_memoized room
  rw [hexec, Exec.memoized_of_none hmemo] at hreached ⊢
  exact Exec.Forward.made_le_of_limited hinner hreached

theorem runBare_forward (lib : Library) : lib.runBare.Forward := by
  intro r s
  unfold runBare
  split
  · exact State.Later.refl s
  · exact (lib.exec_forward _).perform r s _

end Library

end Peg
