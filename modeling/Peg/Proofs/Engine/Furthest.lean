import Mathlib.Order.Bounds.Basic
import Peg.Proofs.Engine.Tally

/-!
# How far a run has got

The furthest offset after a run without a memo is the greatest of the one before it and of the
offsets at which matches end among its executions. All of these count, also those that came to
nothing in the end: options that were abandoned, rounds and parts before a failure, and whatever was
only looked ahead at. Cursor moves that belong to no match do not count. Main statement:
`Library.tops_exec`.
-/

namespace Peg

/-- Of an execution that counts if it is a match that ends at the offset `q`, and of those inside. -/
def Tally.ending (q : Nat) (exec : Exec) (inside : Tally) : Tally := fun r s =>
  (if (exec r s).1.any (s.place.offset + ·.length = q) then 1 else 0) + inside r s

/-- How many matches end at the offset `q` among the executions of a run without a memo, with room
for so many executions nested inside each other. -/
def Library.endings (lib : Library) (q : Nat) : Nat → Tally
  | 0 => .ending q (lib.exec 0) (.limited lib none)
  | room + 1 =>
    .ending q (lib.exec (room + 1)) (.limited lib (some (lib.endings q room, lib.exec room)))

namespace State

/-- From `s` on, `t` has got as far as the furthest of the offsets that are counted. -/
def Tops (s t : State) (count : Nat → Nat) : Prop :=
  IsGreatest {q | q = s.cursor.furthest ∨ 0 < count q} t.cursor.furthest

namespace Tops

variable {s t u : State} {count count' : Nat → Nat}

theorem of_furthest_eq (h : t.cursor.furthest = s.cursor.furthest) : s.Tops t fun _ => 0 := by
  unfold Tops
  rw [h]
  simp

theorem refl (s : State) : s.Tops s fun _ => 0 := of_furthest_eq rfl

theorem trans (h : s.Tops t count) (h' : t.Tops u count') :
    s.Tops u fun q => count q + count' q := by
  constructor
  · rcases h'.1 with heq | hcount
    · rw [heq]
      rcases h.1 with heq' | hcount
      · exact .inl heq'
      · exact .inr (Nat.add_pos_left hcount _)
    · exact .inr (Nat.add_pos_right _ hcount)
  · have hle : t.cursor.furthest ≤ u.cursor.furthest := h'.2 (.inl rfl)
    rintro q (heq | hcount)
    · exact Nat.le_trans (h.2 (.inl heq)) hle
    · rcases Nat.add_pos_iff_pos_or_pos.1 hcount with hcount | hcount
      · exact Nat.le_trans (h.2 (.inr hcount)) hle
      · exact h'.2 (.inr hcount)

theorem congr (h : s.Tops t count) (hcount : ∀ q, count' q = count q) : s.Tops t count' := by
  rw [show count' = count from funext hcount]
  exact h

theorem settle (s : State) (p : Place) (outcome : Option Derivation) :
    s.Tops (s.leave.settle p outcome).2 fun q =>
      if outcome.any (p.offset + ·.length = q) then 1 else 0 := by
  cases outcome with
  | none => exact .refl s
  | some d =>
      have hend : (s.leave.settle p (some d)).2.cursor.furthest =
          max s.cursor.furthest (p.offset + d.length) := rfl
      unfold Tops
      rw [hend]
      have hset : {q | q = s.cursor.furthest ∨
          0 < if (some d).any (p.offset + ·.length = q) then 1 else 0} =
          {s.cursor.furthest} ∪ {p.offset + d.length} := by
        ext q
        by_cases hq : q = p.offset + d.length <;> simp [hq, eq_comm]
      rw [hset]
      exact isGreatest_singleton.union isGreatest_singleton

end Tops

end State

namespace Exec

/-- Runs without a memo get as far as the furthest of the offsets that are counted for them. -/
structure Topped (count : Nat → Tally) (exec : Exec) : Prop where
  forward : exec.Forward
  tops : ∀ (r : RuleRef) (s : State), s.memo = none → s.Tops (exec r s).2 fun q => count q r s

namespace Topped

variable {count : Nat → Tally} {exec : Exec}

theorem memo (h : Topped count exec) (r : RuleRef) {s : State} (hs : s.memo = none) :
    (exec r s).2.memo = none :=
  (h.forward r s).memo_eq_none hs

theorem test (h : Topped count exec) (r : RuleRef) {s : State} (hs : s.memo = none) :
    s.Tops (exec.test r s).2 fun q => count q r s :=
  h.tops r s hs

theorem all (h : Topped count exec) (rs : List RuleRef) {s : State} (hs : s.memo = none) :
    s.Tops (exec.all rs s).2 fun q => (count q).all exec rs s := by
  induction rs generalizing s with
  | nil => exact .refl s
  | cons r rs ih =>
      have hr := h.tops r s hs
      cases hout : (exec r s).1 with
      | none =>
          rw [Exec.all_cons_none rs hout]
          exact hr.congr fun q => by simp [Tally.all, hout]
      | some d =>
          rw [Exec.all_cons_some rs hout]
          exact (hr.trans (ih (h.memo r hs))).congr fun q => by simp [Tally.all, hout]

theorem firstOf (h : Topped count exec) (rs : List RuleRef) {s : State} (hs : s.memo = none) :
    s.Tops (exec.firstOf rs s).2 fun q => (count q).firstOf exec rs s := by
  induction rs generalizing s with
  | nil => exact .refl s
  | cons r rs ih =>
      have hr := h.tops r s hs
      cases hout : (exec r s).1 with
      | none =>
          rw [Exec.firstOf_cons_none rs hout]
          exact (hr.trans (ih (h.memo r hs))).congr fun q => by simp [Tally.firstOf, hout]
      | some d =>
          rw [Exec.firstOf_cons_some rs hout]
          exact hr.congr fun q => by simp [Tally.firstOf, hout]

theorem repeated (h : Topped count exec) (r : RuleRef) (least : Nat) (most : Option Nat)
    (unread : List Char) (n : Nat) (done : List Derivation) {s : State} (hs : s.memo = none) :
    s.Tops (exec.repeated r least most unread n done s).2 fun q =>
      (count q).repeated exec r most unread n s := by
  by_cases hmost : most = some n
  · rw [Exec.repeated_full unread done hmost]
    exact (State.Tops.refl s).congr fun q => by unfold Tally.repeated; rw [if_pos hmost]
  have hr := h.tops r s hs
  cases hout : (exec r s).1 with
  | none =>
      rw [Exec.repeated_none unread done hmost hout]
      refine hr.congr fun q => ?_
      unfold Tally.repeated
      simp [hmost, hout]
  | some d =>
      by_cases hd : d.length = 0
      · rw [Exec.repeated_empty unread done hmost hout hd]
        refine hr.congr fun q => ?_
        unfold Tally.repeated
        cases unread <;> simp [hmost, hout, hd]
      cases unread with
      | nil =>
          rw [Exec.repeated_nil done hmost hout hd]
          refine hr.congr fun q => ?_
          unfold Tally.repeated
          simp [hmost, hout]
      | cons c unread =>
          rw [Exec.repeated_cons c unread done hmost hout hd]
          have hrest := repeated h r least most unread (n + 1) (d :: done) (h.memo r hs)
          refine (hr.trans hrest).congr fun q => ?_
          conv_lhs => unfold Tally.repeated
          simp [hmost, hout, hd]

theorem upTo (h : Topped count exec) (stop : RuleRef) (rest : List Char) (passed : Nat) {s : State}
    (hs : s.memo = none) :
    s.Tops (exec.upTo stop rest passed s).2 fun q => (count q).upTo exec stop rest s := by
  have hstop := h.test stop hs
  cases hout : (exec stop s).1 with
  | some d =>
      rw [Exec.upTo_found rest passed hout]
      refine hstop.congr fun q => ?_
      unfold Tally.upTo
      simp [hout]
  | none =>
      cases rest with
      | nil =>
          rw [Exec.upTo_nil passed hout]
          refine hstop.congr fun q => ?_
          unfold Tally.upTo
          simp [hout]
      | cons c rest =>
          rw [Exec.upTo_cons c rest passed hout]
          have hmoved : ((exec.test stop s).2.moveTo (s.place.past c rest)).memo = none :=
            h.memo stop hs
          have hrest := upTo h stop rest (passed + c.utf8Size) hmoved
          refine State.Tops.congr (hstop.trans hrest) fun q => ?_
          rw [Tally.upTo]
          simp [hout]

theorem perform (h : Topped count exec) (r : RuleRef) {s : State} (hs : s.memo = none)
    (kind : Kind RuleRef) :
    s.Tops (exec.perform r s kind).2 fun q => (count q).perform exec r s kind := by
  cases kind with
  | terminal _ | text _ _ => exact .refl s
  | sequence parts => exact h.all _ hs
  | choice options => exact h.firstOf _ hs
  | rep body least most => exact h.repeated _ least most _ 0 [] hs
  | ahead body | notAhead body => exact h.test _ hs
  | upTo stop => exact h.upTo _ _ 0 hs
  | ref _ target | inherited _ target => exact h.tops target s hs
  | label body => exact h.tops _ s hs

theorem tops_of_refused {inside : Nat → Tally} {r : RuleRef} {s t : State}
    (hrefused : exec r s = (none, t)) (ht : t.cursor.furthest = s.cursor.furthest)
    (hinside : ∀ q, inside q r s = 0) :
    s.Tops (exec r s).2 fun q => Tally.ending q exec (inside q) r s := by
  rw [hrefused]
  refine (State.Tops.of_furthest_eq ht).congr fun q => ?_
  simp [Tally.ending, hrefused, hinside]

theorem limited {lib : Library} {inner : Option ((Nat → Tally) × Exec)}
    (h : ∀ pair ∈ inner, Topped pair.1 pair.2) (r : RuleRef) {s : State} (hs : s.memo = none) :
    s.Tops (Exec.limited lib (inner.map (·.2)) r s).2 fun q =>
      Tally.ending q (Exec.limited lib (inner.map (·.2)))
        (.limited lib (inner.map fun pair => (pair.1 q, pair.2))) r s := by
  cases hcalls : s.cursor.calls.isSpent with
  | true =>
      exact tops_of_refused (Exec.limited_of_isSpent _ hcalls) rfl fun q => by
        simp [Tally.limited, hcalls]
  | false =>
      cases inner with
      | none =>
          exact tops_of_refused (Exec.limited_none hcalls) rfl fun q => by simp [Tally.limited]
      | some pair =>
          rw [Option.map_some]
          cases hnesting : s.cursor.nesting.exceeded with
          | true =>
              exact tops_of_refused (Exec.limited_of_exceeded hcalls hnesting) rfl fun q => by
                simp [Tally.limited, hnesting]
          | false =>
              cases hrule : lib.rule? r with
              | none =>
                  exact tops_of_refused (Exec.limited_of_rule_none hcalls hnesting hrule) rfl
                    fun q => by simp [Tally.limited, hrule]
              | some rule =>
                  have hlimited : Exec.limited lib (some pair.2) r s = _ :=
                    Exec.limited_of_rule hcalls hnesting hrule
                  have hinside := (h pair rfl).perform r (s := s.spendCall.enter) hs rule.kind
                  rw [hlimited]
                  refine State.Tops.congr (hinside.trans (.settle _ s.place _)) fun q => ?_
                  simp [Tally.ending, Tally.limited, hlimited, hcalls, hnesting, hrule, Nat.add_comm]

theorem memoized {lib : Library} (inner : Option ((Nat → Tally) × Exec))
    (h : ∀ pair ∈ inner, Topped pair.1 pair.2) :
    Topped
      (fun q => .ending q (Exec.memoized (Exec.limited lib (inner.map (·.2))))
        (.limited lib (inner.map fun pair => (pair.1 q, pair.2))))
      (Exec.memoized (Exec.limited lib (inner.map (·.2)))) where
  forward := by
    refine (Forward.limited fun exec hexec => ?_).memoized
    obtain ⟨pair, hpair, rfl⟩ := Option.map_eq_some_iff.1 hexec
    exact (h pair hpair).forward
  tops r s hs := by
    simp only [Tally.ending, Exec.memoized_of_none hs]
    exact limited h r hs

end Topped

end Exec

/-- Without a memo a run has got as far as it had before or as the furthest of the matches among its
executions, whichever is further. -/
theorem Library.tops_exec (lib : Library) (room : Nat) :
    Exec.Topped (fun q => lib.endings q room) (lib.exec room) := by
  induction room with
  | zero => exact Exec.Topped.memoized none fun _ h => by cases h
  | succ room ih =>
      refine Exec.Topped.memoized (some (fun q => lib.endings q room, lib.exec room)) ?_
      intro pair h
      cases h
      exact ih

end Peg
