import Peg.Engine.Run

/-!
# Single rounds of the loops

What the loops over rules, the limits and the memo do next, depending on the outcome of the
execution they ask for first. Later statements about runs go by these equations.
-/

namespace Peg

theorem Cursor.reachedLimit_eq_false_iff {c : Cursor} :
    c.reachedLimit = false ↔ c.calls.exceeded = false ∧ c.nesting.exceeded = false :=
  Bool.or_eq_false_iff

namespace Exec

variable {exec : Exec} {r : RuleRef} {s : State} {d : Derivation}

/-! ## Rules in a row -/

theorem all_cons_none (rs : List RuleRef) (h : (exec r s).1 = none) :
    exec.all (r :: rs) s = (none, (exec r s).2) := by
  rcases hx : exec r s with ⟨outcome, t⟩
  rw [hx] at h
  subst h
  simp [all, hx]

theorem all_cons_some (rs : List RuleRef) (h : (exec r s).1 = some d) :
    exec.all (r :: rs) s =
      ((exec.all rs (exec r s).2).1.map (d :: ·), (exec.all rs (exec r s).2).2) := by
  rcases hx : exec r s with ⟨outcome, t⟩
  rw [hx] at h
  subst h
  rcases hy : exec.all rs t with ⟨tail, u⟩
  cases tail <;> simp [all, hx, hy]

/-! ## The first of some rules -/

theorem firstOf_cons_none (rs : List RuleRef) (h : (exec r s).1 = none) :
    exec.firstOf (r :: rs) s = exec.firstOf rs (exec r s).2 := by
  rcases hx : exec r s with ⟨outcome, t⟩
  rw [hx] at h
  subst h
  simp [firstOf, hx]

theorem firstOf_cons_some (rs : List RuleRef) (h : (exec r s).1 = some d) :
    exec.firstOf (r :: rs) s = (some d, (exec r s).2) := by
  rcases hx : exec r s with ⟨outcome, t⟩
  rw [hx] at h
  subst h
  simp [firstOf, hx]

/-! ## Rounds of a rule -/

section Repeated

variable {least : Nat} {most : Option Nat} {count : Nat}

theorem repeated_full (unread : List Char) (done : List Derivation) (hmost : most = some count) :
    exec.repeated r least most unread count done s =
      (if least ≤ count then some done.reverse else none, s) := by
  unfold repeated
  rw [if_pos hmost]

theorem repeated_none (unread : List Char) (done : List Derivation) (hmost : most ≠ some count)
    (h : (exec r s).1 = none) :
    exec.repeated r least most unread count done s =
      (if least ≤ count then some done.reverse else none, (exec r s).2) := by
  rcases hx : exec r s with ⟨outcome, t⟩
  rw [hx] at h
  subst h
  unfold repeated
  rw [if_neg hmost, hx]

theorem repeated_empty (unread : List Char) (done : List Derivation) (hmost : most ≠ some count)
    (h : (exec r s).1 = some d) (hd : d.length = 0) :
    exec.repeated r least most unread count done s =
      (some (d :: done).reverse, (exec r s).2) := by
  rcases hx : exec r s with ⟨outcome, t⟩
  rw [hx] at h
  subst h
  unfold repeated
  rw [if_neg hmost, hx]
  simp [hd]

theorem repeated_nil (done : List Derivation) (hmost : most ≠ some count)
    (h : (exec r s).1 = some d) (hd : d.length ≠ 0) :
    exec.repeated r least most [] count done s = (none, (exec r s).2) := by
  rcases hx : exec r s with ⟨outcome, t⟩
  rw [hx] at h
  subst h
  unfold repeated
  rw [if_neg hmost, hx]
  simp [hd]

theorem repeated_cons (c : Char) (unread : List Char) (done : List Derivation)
    (hmost : most ≠ some count) (h : (exec r s).1 = some d) (hd : d.length ≠ 0) :
    exec.repeated r least most (c :: unread) count done s =
      exec.repeated r least most unread (count + 1) (d :: done) (exec r s).2 := by
  rcases hx : exec r s with ⟨outcome, t⟩
  rw [hx] at h
  subst h
  rw [repeated]
  rw [if_neg hmost, hx]
  simp [hd]

/-- The rounds done so far come before the further ones and make no other difference. -/
theorem repeated_done (unread : List Char) (count : Nat) (done : List Derivation) (s : State) :
    exec.repeated r least most unread count done s =
      ((exec.repeated r least most unread count [] s).1.map (done.reverse ++ ·),
        (exec.repeated r least most unread count [] s).2) := by
  by_cases hmost : most = some count
  · rw [repeated_full unread done hmost, repeated_full unread [] hmost]
    split <;> simp
  cases hout : (exec r s).1 with
  | none =>
      rw [repeated_none unread done hmost hout, repeated_none unread [] hmost hout]
      split <;> simp
  | some d =>
      by_cases hd : d.length = 0
      · rw [repeated_empty unread done hmost hout hd, repeated_empty unread [] hmost hout hd]
        simp
      cases unread with
      | nil =>
          rw [repeated_nil done hmost hout hd, repeated_nil [] hmost hout hd]
          rfl
      | cons c unread =>
          rw [repeated_cons c unread done hmost hout hd, repeated_cons c unread [] hmost hout hd,
            repeated_done unread (count + 1) (d :: done), repeated_done unread (count + 1) [d]]
          simp [Function.comp_def]

theorem repeated_more (c : Char) (unread : List Char) (hmost : most ≠ some count)
    (h : (exec r s).1 = some d) (hd : d.length ≠ 0) :
    exec.repeated r least most (c :: unread) count [] s =
      ((exec.repeated r least most unread (count + 1) [] (exec r s).2).1.map (d :: ·),
        (exec.repeated r least most unread (count + 1) [] (exec r s).2).2) := by
  rw [repeated_cons c unread [] hmost h hd, repeated_done]
  rfl

end Repeated

/-! ## Characters up to a rule -/

theorem test_fst (exec : Exec) (r : RuleRef) (s : State) :
    (exec.test r s).1 = (exec r s).1.isSome := rfl

theorem test_snd (exec : Exec) (r : RuleRef) (s : State) :
    (exec.test r s).2 = (exec r s).2.moveTo s.place := rfl

@[simp] theorem test_place (exec : Exec) (r : RuleRef) (s : State) :
    (exec.test r s).2.place = s.place := rfl

theorem upTo_found (rest : List Char) (passed : Nat) (h : (exec r s).1 = some d) :
    exec.upTo r rest passed s = (passed, (exec.test r s).2) := by
  have hfound : (exec.test r s).1 = true := by rw [test_fst, h]; rfl
  rcases hx : exec.test r s with ⟨found, t⟩
  rw [hx] at hfound
  cases hfound
  unfold upTo
  rw [hx]

theorem upTo_nil (passed : Nat) (h : (exec r s).1 = none) :
    exec.upTo r [] passed s = (passed, (exec.test r s).2) := by
  have hfound : (exec.test r s).1 = false := by rw [test_fst, h]; rfl
  rcases hx : exec.test r s with ⟨found, t⟩
  rw [hx] at hfound
  cases hfound
  unfold upTo
  rw [hx]

theorem upTo_cons (c : Char) (rest : List Char) (passed : Nat) (h : (exec r s).1 = none) :
    exec.upTo r (c :: rest) passed s =
      exec.upTo r rest (passed + c.utf8Size)
        ((exec.test r s).2.moveTo (s.place.past c rest)) := by
  have hfound : (exec.test r s).1 = false := by rw [test_fst, h]; rfl
  have hplace := test_place exec r s
  rcases hx : exec.test r s with ⟨found, t⟩
  rw [hx] at hfound hplace
  cases hfound
  rw [upTo, hx, ← hplace]

/-! ## Matches of predicates and scans -/

theorem perform_ahead_fst (body : Nat) :
    (exec.perform r s (.ahead body)).1 =
      (exec (r.sibling body) s).1.map fun _ => .branch r 0 [] := by
  change (if (exec.test (r.sibling body) s).1 then _ else _) = _
  rw [test_fst]
  cases (exec (r.sibling body) s).1 <;> rfl

theorem perform_notAhead_fst (body : Nat) :
    (exec.perform r s (.notAhead body)).1 =
      if (exec (r.sibling body) s).1.isSome then none else some (.branch r 0 []) := rfl

theorem perform_upTo_fst {stop m : Nat}
    (h : (exec.upTo (r.sibling stop) s.place.rest 0 s).1 = m) :
    (exec.perform r s (.upTo stop)).1 = if 0 < m then some (.branch r m []) else none := by
  rw [← h]
  rfl

/-! ## Limits -/

section Limited

variable {lib : Library} {inner : Exec}

theorem limited_of_isSpent (inner : Option Exec) (h : s.cursor.calls.isSpent = true) :
    Exec.limited lib inner r s = (none, s.refuseCall) := by
  unfold limited
  rw [if_pos h]

theorem limited_none (h : s.cursor.calls.isSpent = false) :
    Exec.limited lib none r s = (none, s.spendCall.refuseNesting) := by
  simp [limited, h]

theorem limited_of_exceeded (h : s.cursor.calls.isSpent = false)
    (hnesting : s.cursor.nesting.exceeded = true) :
    Exec.limited lib (some inner) r s = (none, s.spendCall.refuseNesting) := by
  have hnesting' : s.spendCall.cursor.nesting.exceeded = true := hnesting
  simp [limited, h, hnesting']

theorem limited_of_rule_none (h : s.cursor.calls.isSpent = false)
    (hnesting : s.cursor.nesting.exceeded = false) (hrule : lib.rule? r = none) :
    Exec.limited lib (some inner) r s = (none, s.spendCall) := by
  have hnesting' : s.spendCall.cursor.nesting.exceeded = false := hnesting
  simp [limited, h, hnesting', hrule]

theorem limited_of_rule {rule : Rule RuleRef} (h : s.cursor.calls.isSpent = false)
    (hnesting : s.cursor.nesting.exceeded = false) (hrule : lib.rule? r = some rule) :
    Exec.limited lib (some inner) r s =
      (inner.perform r s.spendCall.enter rule.kind).2.leave.settle s.place
        (inner.perform r s.spendCall.enter rule.kind).1 := by
  have hnesting' : s.spendCall.cursor.nesting.exceeded = false := hnesting
  simp only [limited, h, hnesting', hrule, Bool.false_eq_true, if_false]
  rfl

end Limited

end Exec

/-! ## The memo -/

namespace State

/-- The state with the outcome of a rule recorded, unless a limit was exceeded. -/
def learn (s : State) (r : RuleRef) (offset : Nat) (outcome : Option Derivation) : State :=
  if s.cursor.reachedLimit then s else s.remember r offset outcome

variable {s : State} (r : RuleRef) (offset : Nat) (outcome : Option Derivation)

theorem learn_of_reachedLimit (h : s.cursor.reachedLimit = true) :
    s.learn r offset outcome = s := by
  unfold learn
  rw [if_pos h]

theorem learn_of_unlimited (h : s.cursor.reachedLimit = false) :
    s.learn r offset outcome = s.remember r offset outcome := by
  unfold learn
  rw [h]
  rfl

@[simp] theorem learn_cursor : (s.learn r offset outcome).cursor = s.cursor := by
  unfold learn
  split <;> rfl

end State

namespace Exec

section Memoized

variable {exec : Exec} {r : RuleRef} {s : State} {d : Derivation}

variable {memo : Memo}

theorem memoized_of_none (hmemo : s.memo = none) : Exec.memoized exec r s = exec r s := by
  unfold memoized
  rw [hmemo]

theorem memoized_of_hit (hmemo : s.memo = some memo)
    (hhit : memo.outcome? r s.place.offset = some (some d)) :
    Exec.memoized exec r s =
      (some d, (s.noteReplay r s.place.offset).advanceTo (s.place.advance d.length)) := by
  simp [memoized, hmemo, hhit]

theorem memoized_of_failure_hit (hmemo : s.memo = some memo)
    (hhit : memo.outcome? r s.place.offset = some none) :
    Exec.memoized exec r s = (none, s.countFailureHit) := by
  simp [memoized, hmemo, hhit]

theorem memoized_of_miss (hmemo : s.memo = some memo)
    (hmiss : memo.outcome? r s.place.offset = none) :
    Exec.memoized exec r s =
      ((exec r s.countMiss).1,
        (exec r s.countMiss).2.learn r s.place.offset (exec r s.countMiss).1) := by
  rcases hx : exec r s.countMiss with ⟨outcome, t⟩
  simp only [memoized, hmemo, hmiss, hx, State.learn]
  split <;> rfl

end Memoized

end Exec

/-- Where an execution leaves the cursor: behind the match, or where it was. -/
def Place.after (p : Place) : Option Derivation → Place
  | none => p
  | some d => p.advance d.length

namespace State

variable (s : State) (start : Place) (outcome : Option Derivation)

@[simp] theorem settle_fst : (s.settle start outcome).1 = outcome := by
  cases outcome <;> rfl

@[simp] theorem settle_place : (s.settle start outcome).2.place = start.after outcome := by
  cases outcome <;> rfl

@[simp] theorem settle_calls : (s.settle start outcome).2.cursor.calls = s.cursor.calls := by
  cases outcome <;> rfl

@[simp] theorem settle_nesting : (s.settle start outcome).2.cursor.nesting = s.cursor.nesting := by
  cases outcome <;> rfl

@[simp] theorem reachedLimit_settle :
    (s.settle start outcome).2.cursor.reachedLimit = s.cursor.reachedLimit := by
  cases outcome <;> rfl

theorem reachedLimit_refuseCall : s.refuseCall.cursor.reachedLimit = true := by
  simp [refuseCall, Cursor.reachedLimit, CallBudget.refuse, CallBudget.exceeded]

theorem reachedLimit_refuseNesting : s.refuseNesting.cursor.reachedLimit = true := by
  simp [refuseNesting, Cursor.reachedLimit, Nesting.refuse, Nesting.exceeded]

end State

end Peg
