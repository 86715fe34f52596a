import Peg.Proofs.Engine.Step

/-!
# Replays are only noted

A run adds to the list of replays and never looks at it. So replays noted before a run stay in front
of the list and change nothing else, limits and memo included. Main statement:
`Library.exec_heedless`.
-/

namespace Peg

namespace State

/-- The state with replays noted before all others. -/
def noted (before : Array Replay) (s : State) : State := { s with replays := before ++ s.replays }

variable (before : Array Replay) (s : State)

@[simp] theorem noted_cursor : (s.noted before).cursor = s.cursor := rfl

@[simp] theorem noted_place : (s.noted before).place = s.place := rfl

theorem noted_noteReplay (r : RuleRef) (offset : Nat) :
    (s.noted before).noteReplay r offset = (s.noteReplay r offset).noted before := by
  simp only [noteReplay, noted, Array.append_push]

theorem noted_learn (r : RuleRef) (offset : Nat) (outcome : Option Derivation) :
    (s.noted before).learn r offset outcome = (s.learn r offset outcome).noted before := by
  cases hreached : s.cursor.reachedLimit with
  | true =>
      rw [learn_of_reachedLimit r offset outcome hreached]
      exact learn_of_reachedLimit r offset outcome hreached
  | false =>
      rw [learn_of_unlimited r offset outcome hreached]
      exact learn_of_unlimited r offset outcome hreached

theorem noted_settle (p : Place) (outcome : Option Derivation) :
    (s.noted before).settle p outcome = (s.settle p outcome).map id (noted before) := by
  cases outcome <;> rfl

end State

namespace Exec

/-- What a run finds, and all it does to the state, is the same whatever replays were noted before. -/
def Heedless (exec : Exec) : Prop :=
  ∀ (r : RuleRef) (s : State) (before : Array Replay),
    exec r (s.noted before) = (exec r s).map id (State.noted before)

namespace Heedless

variable {exec : Exec} (h : exec.Heedless) (before : Array Replay)
include h

theorem fst (r : RuleRef) (s : State) : (exec r (s.noted before)).1 = (exec r s).1 := by
  rw [h r s before]
  rfl

theorem snd (r : RuleRef) (s : State) :
    (exec r (s.noted before)).2 = (exec r s).2.noted before := by
  rw [h r s before]
  rfl

theorem test (r : RuleRef) (s : State) :
    exec.test r (s.noted before) = (exec.test r s).map id (State.noted before) := by
  simp only [Exec.test, h r s before]
  rfl

/-! ## Loops -/

theorem all (rs : List RuleRef) (s : State) :
    exec.all rs (s.noted before) = (exec.all rs s).map id (State.noted before) := by
  induction rs generalizing s with
  | nil => rfl
  | cons r rs ih =>
      have hfst := h.fst before r s
      cases hout : (exec r s).1 with
      | none =>
          rw [all_cons_none rs hout, all_cons_none rs (hfst.trans hout), h.snd before]
          rfl
      | some d =>
          rw [all_cons_some rs hout, all_cons_some rs (hfst.trans hout), h.snd before, ih]
          rfl

theorem firstOf (rs : List RuleRef) (s : State) :
    exec.firstOf rs (s.noted before) = (exec.firstOf rs s).map id (State.noted before) := by
  induction rs generalizing s with
  | nil => rfl
  | cons r rs ih =>
      have hfst := h.fst before r s
      cases hout : (exec r s).1 with
      | none =>
          rw [firstOf_cons_none rs hout, firstOf_cons_none rs (hfst.trans hout), h.snd before, ih]
      | some d =>
          rw [firstOf_cons_some rs hout, firstOf_cons_some rs (hfst.trans hout), h.snd before]
          rfl

theorem repeated (r : RuleRef) (least : Nat) (most : Option Nat) (unread : List Char) (count : Nat)
    (done : List Derivation) (s : State) :
    exec.repeated r least most unread count done (s.noted before) =
      (exec.repeated r least most unread count done s).map id (State.noted before) := by
  by_cases hmost : most = some count
  · rw [repeated_full unread done hmost, repeated_full unread done hmost]
    rfl
  have hfst := h.fst before r s
  cases hout : (exec r s).1 with
  | none =>
      rw [repeated_none unread done hmost hout,
        repeated_none unread done hmost (hfst.trans hout), h.snd before]
      rfl
  | some d =>
      by_cases hd : d.length = 0
      · rw [repeated_empty unread done hmost hout hd,
          repeated_empty unread done hmost (hfst.trans hout) hd, h.snd before]
        rfl
      cases unread with
      | nil =>
          rw [repeated_nil done hmost hout hd, repeated_nil done hmost (hfst.trans hout) hd,
            h.snd before]
          rfl
      | cons c unread =>
          rw [repeated_cons c unread done hmost hout hd,
            repeated_cons c unread done hmost (hfst.trans hout) hd, h.snd before]
          exact repeated r least most unread (count + 1) (d :: done) _

theorem upTo (stop : RuleRef) (rest : List Char) (passed : Nat) (s : State) :
    exec.upTo stop rest passed (s.noted before) =
      (exec.upTo stop rest passed s).map id (State.noted before) := by
  have hfst := h.fst before stop s
  have htest := h.test before stop s
  cases hout : (exec stop s).1 with
  | some d =>
      rw [upTo_found rest passed hout, upTo_found rest passed (hfst.trans hout), htest]
      rfl
  | none =>
      cases rest with
      | nil =>
          rw [upTo_nil passed hout, upTo_nil passed (hfst.trans hout), htest]
          rfl
      | cons c rest =>
          rw [upTo_cons c rest passed hout, upTo_cons c rest passed (hfst.trans hout), htest]
          exact upTo stop rest (passed + c.utf8Size) ((exec.test stop s).2.moveTo (s.place.past c rest))

/-! ## Executions -/

theorem perform (r : RuleRef) (s : State) (kind : Kind RuleRef) :
    exec.perform r (s.noted before) kind =
      (exec.perform r s kind).map id (State.noted before) := by
  cases kind with
  | terminal matcher | text literal ignoreCase => rfl
  | sequence parts =>
      simp only [Exec.perform, h.all before]
      rfl
  | choice options =>
      simp only [Exec.perform, h.firstOf before]
      rfl
  | rep body least most =>
      simp only [Exec.perform, State.noted_place, h.repeated before]
      rfl
  | ahead body | notAhead body =>
      simp only [Exec.perform, h.test before]
      rfl
  | upTo stop =>
      simp only [Exec.perform, State.noted_place, h.upTo before]
      rfl
  | ref name target | inherited name target =>
      simp only [Exec.perform, Exec.wrap, h target s before]
      rfl
  | label body =>
      simp only [Exec.perform, Exec.wrap, h (r.sibling body) s before]
      rfl

omit h in
theorem limited {lib : Library} {inner : Option Exec} (h : ∀ exec ∈ inner, exec.Heedless) :
    (Exec.limited lib inner).Heedless := by
  intro r s before
  cases hcalls : s.cursor.calls.isSpent with
  | true =>
      rw [limited_of_isSpent inner hcalls]
      exact limited_of_isSpent inner hcalls
  | false =>
      cases inner with
      | none =>
          rw [limited_none hcalls]
          exact limited_none hcalls
      | some exec =>
          cases hnesting : s.cursor.nesting.exceeded with
          | true =>
              rw [limited_of_exceeded hcalls hnesting]
              exact limited_of_exceeded hcalls hnesting
          | false =>
              cases hrule : lib.rule? r with
              | none =>
                  rw [limited_of_rule_none hcalls hnesting hrule]
                  exact limited_of_rule_none hcalls hnesting hrule
              | some rule =>
                  have hbody := (h exec rfl).perform before r s.spendCall.enter rule.kind
                  rw [limited_of_rule hcalls hnesting hrule, ← State.noted_settle]
                  refine (limited_of_rule (s := s.noted before) hcalls hnesting hrule).trans ?_
                  exact congrArg (fun x => State.settle x.2.leave s.place x.1) hbody

theorem memoized : (Exec.memoized exec).Heedless := by
  intro r s before
  cases hmemo : s.memo with
  | none =>
      rw [memoized_of_none hmemo]
      exact (memoized_of_none (s := s.noted before) hmemo).trans (h r s before)
  | some memo =>
      rcases hhit : memo.outcome? r s.place.offset with _ | _ | d
      · have hrun := h r s.countMiss before
        rw [memoized_of_miss hmemo hhit]
        refine (memoized_of_miss (s := s.noted before) hmemo hhit).trans ?_
        change ((exec r (s.countMiss.noted before)).1,
          (exec r (s.countMiss.noted before)).2.learn r s.place.offset
            (exec r (s.countMiss.noted before)).1) = _
        rw [hrun]
        exact congrArg (Prod.mk _) (State.noted_learn before _ r s.place.offset _)
      · rw [memoized_of_failure_hit hmemo hhit]
        exact memoized_of_failure_hit (s := s.noted before) hmemo hhit
      · rw [memoized_of_hit hmemo hhit]
        refine (memoized_of_hit (s := s.noted before) hmemo hhit).trans ?_
        rw [State.noted_place, State.noted_noteReplay]
        rfl

end Heedless

end Exec

namespace Library

variable (lib : Library)

theorem exec_heedless (room : Nat) : (lib.exec room).Heedless := by
  induction room with
  | zero => exact (Exec.Heedless.limited fun _ h => by cases h).memoized
  | succ room ih =>
      refine (Exec.Heedless.limited fun exec h => ?_).memoized
      cases h
      exact ih

theorem run_heedless : lib.run.Heedless := fun r s before => lib.exec_heedless _ r s before

theorem runBare_heedless : lib.runBare.Heedless := by
  intro r s before
  unfold runBare
  cases lib.rule? r with
  | none => rfl
  | some rule => exact (lib.exec_heedless _).perform before r s rule.kind

end Library

end Peg
