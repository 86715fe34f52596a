import Peg.Proofs.Semantics.Soundness

/-!
# What holds is found

A run whose limits are enough for the extent of the outcome that a rule has finds this outcome,
and no limit refuses anything on the way. Replays only make it cheaper. Main statement:
`Library.exec_finds`.
-/

namespace Peg

namespace State

/-- No limit was exceeded, and what is left of the limits is enough for executions of the extent,
nested `n` deep at most. -/
structure Affords (n : Nat) (s : State) (e : Extent) : Prop where
  unlimited : s.cursor.reachedLimit = false
  height : e.height ≤ n
  calls : ∀ limit ∈ s.cursor.calls.limit, s.cursor.calls.made + e.calls ≤ limit

/-- From `s` to `t` no more calls were made than the extent has, and no limit was exceeded. -/
structure Within (s t : State) (e : Extent) : Prop where
  unlimited : t.cursor.reachedLimit = false
  made : t.cursor.calls.made ≤ s.cursor.calls.made + e.calls

variable {n : Nat} {s t u : State} {e e' : Extent}

theorem Affords.left (h : s.Affords n (e.andThen e')) : s.Affords n e where
  unlimited := h.unlimited
  height := Nat.le_trans (Nat.le_max_left _ _) h.height
  calls limit hlimit := by
    have hcalls := h.calls limit hlimit
    simp only [Extent.andThen] at hcalls
    omega

theorem Affords.right (h : s.Affords n (e.andThen e')) (hlater : s.Later t)
    (hwithin : s.Within t e) : t.Affords n e' where
  unlimited := hwithin.unlimited
  height := Nat.le_trans (Nat.le_max_right _ _) h.height
  calls limit hlimit := by
    rw [hlater.callLimit] at hlimit
    have hcalls := h.calls limit hlimit
    have hmade := hwithin.made
    simp only [Extent.andThen] at hcalls
    omega

theorem Affords.within_zero (h : s.Affords n e) : s.Within s .zero :=
  ⟨h.unlimited, Nat.le_refl _⟩

theorem Within.andThen (h : s.Within t e) (h' : t.Within u e') : s.Within u (e.andThen e') where
  unlimited := h'.unlimited
  made := by
    have hst := h.made
    have htu := h'.made
    simp only [Extent.andThen]
    omega

end State

theorem Library.Yields.knows {lib : Library} {r : RuleRef} {p : Place}
    {outcome : Option Derivation} {e : Extent} (h : lib.Yields r p outcome e) : lib.Knows r := by
  cases h with
  | intro hrule _ => exact Option.isSome_iff_exists.2 ⟨_, hrule⟩

namespace Exec

/-- Runs find the outcomes that rules have, as far as the limits are enough for them. -/
structure Finds (lib : Library) (n : Nat) (exec : Exec) : Prop where
  sound : exec.Sound lib n
  finds : ∀ r s outcome e, lib.Ready s → lib.Yields r s.place outcome e → s.Affords n e →
    (exec r s).1 = outcome ∧ s.Within (exec r s).2 e

namespace Finds

variable {lib : Library} {n : Nat} {exec : Exec}

theorem after (h : exec.Finds lib n) {r : RuleRef} {s : State} {outcome : Option Derivation}
    {e : Extent} (hs : lib.Ready s) (hr : lib.Yields r s.place outcome e) (ha : s.Affords n e) :
    (exec r s).1 = outcome ∧ s.Within (exec r s).2 e ∧ lib.Ready (exec r s).2 ∧
      (exec r s).2.place = s.place.after outcome := by
  obtain ⟨hout, hwithin⟩ := h.finds r s outcome e hs hr ha
  have hfollows := h.sound.follows r s hr.knows hs
  refine ⟨hout, hwithin, hfollows.leads.ready, ?_⟩
  rw [hfollows.place, hout]

/-! ## Loops -/

theorem all (h : exec.Finds lib n) {rs : List RuleRef} {p : Place}
    {outcome : Option (List Derivation)} {e : Extent}
    (hall : Judgement.All lib.Yields rs p outcome e) :
    ∀ s, lib.Ready s → s.place = p → s.Affords n e →
      (exec.all rs s).1 = outcome ∧ s.Within (exec.all rs s).2 e := by
  induction hall with
  | nil =>
      intro s _ _ ha
      exact ⟨rfl, ha.within_zero⟩
  | @fail r rs p e hr =>
      rintro s hs rfl ha
      obtain ⟨hout, hwithin, -, -⟩ := h.after hs hr ha
      rw [Exec.all_cons_none rs hout]
      exact ⟨rfl, hwithin⟩
  | @cons r rs p d outcome e e' hr _ ih =>
      rintro s hs rfl ha
      obtain ⟨hout, hwithin, hready, hplace⟩ := h.after hs hr ha.left
      have ha' := ha.right (h.sound.forward r s) hwithin
      obtain ⟨hout', hwithin'⟩ := ih _ hready hplace ha'
      rw [Exec.all_cons_some rs hout, hout']
      exact ⟨rfl, hwithin.andThen hwithin'⟩

theorem firstOf (h : exec.Finds lib n) {rs : List RuleRef} {p : Place}
    {outcome : Option Derivation} {e : Extent}
    (hfirst : Judgement.First lib.Yields rs p outcome e) :
    ∀ s, lib.Ready s → s.place = p → s.Affords n e →
      (exec.firstOf rs s).1 = outcome ∧ s.Within (exec.firstOf rs s).2 e := by
  induction hfirst with
  | nil =>
      intro s _ _ ha
      exact ⟨rfl, ha.within_zero⟩
  | @found r rs p d e hr =>
      rintro s hs rfl ha
      obtain ⟨hout, hwithin, -, -⟩ := h.after hs hr ha
      rw [Exec.firstOf_cons_some rs hout]
      exact ⟨rfl, hwithin⟩
  | @next r rs p outcome e e' hr _ ih =>
      rintro s hs rfl ha
      obtain ⟨hout, hwithin, hready, hplace⟩ := h.after hs hr ha.left
      have ha' := ha.right (h.sound.forward r s) hwithin
      obtain ⟨hout', hwithin'⟩ := ih _ hready hplace ha'
      rw [Exec.firstOf_cons_none rs hout]
      exact ⟨hout', hwithin.andThen hwithin'⟩

theorem repeated (h : exec.Finds lib n) {count least : Nat} {most : Option Nat} {r : RuleRef}
    {p : Place} {outcome : Option (List Derivation)} {e : Extent}
    (hrep : Judgement.Repeated lib.Yields count r least most p outcome e) :
    ∀ s unread, lib.Ready s → s.place = p → s.place.rest.length ≤ unread.length →
      s.Affords n e →
      (exec.repeated r least most unread count [] s).1 = outcome ∧
        s.Within (exec.repeated r least most unread count [] s).2 e := by
  induction hrep with
  | full hmost =>
      intro s unread _ _ _ ha
      rw [Exec.repeated_full unread [] hmost]
      exact ⟨rfl, ha.within_zero⟩
  | stop hmost hr =>
      rintro s unread hs rfl - ha
      obtain ⟨hout, hwithin, -, -⟩ := h.after hs hr ha
      rw [Exec.repeated_none unread [] hmost hout]
      exact ⟨rfl, hwithin⟩
  | empty hmost hr hlen =>
      rintro s unread hs rfl - ha
      obtain ⟨hout, hwithin, -, -⟩ := h.after hs hr ha
      rw [Exec.repeated_empty unread [] hmost hout hlen]
      exact ⟨rfl, hwithin⟩
  | @more count r least most p d outcome e e' hmost hr hlen _ ih =>
      rintro s unread hs rfl hunread ha
      obtain ⟨hout, hwithin, hready, hplace⟩ := h.after hs hr ha.left
      have ha' := ha.right (h.sound.forward r s) hwithin
      obtain ⟨c, rest, rfl, hrest⟩ := (Library.Yields.covers hr).exists_cons hlen hunread
      have hplace' : (exec r s).2.place = s.place.advance d.length := hplace
      rw [← hplace'] at hrest
      obtain ⟨hout', hwithin'⟩ := ih _ rest hready hplace' hrest ha'
      rw [Exec.repeated_more c rest hmost hout hlen, hout']
      exact ⟨rfl, hwithin.andThen hwithin'⟩

theorem upTo (h : exec.Finds lib n) {p : Place} {stop : RuleRef} {m : Nat} {e : Extent}
    (hup : Judgement.UpTo lib.Yields p stop m e) :
    ∀ s passed, lib.Ready s → s.place = p → s.Affords n e →
      (exec.upTo stop p.rest passed s).1 = passed + m ∧
        s.Within (exec.upTo stop p.rest passed s).2 e := by
  induction hup with
  | found hr =>
      rintro s passed hs rfl ha
      obtain ⟨hout, hwithin, -, -⟩ := h.after hs hr ha
      rw [Exec.upTo_found _ passed hout]
      exact ⟨rfl, hwithin.unlimited, hwithin.made⟩
  | ended hr hrest =>
      rintro s passed hs rfl ha
      obtain ⟨hout, hwithin, -, -⟩ := h.after hs hr ha
      rw [hrest, Exec.upTo_nil passed hout]
      exact ⟨rfl, hwithin.unlimited, hwithin.made⟩
  | @past p stop c rest m e e' hr hrest _ ih =>
      rintro s passed hs rfl ha
      obtain ⟨hout, hwithin, hready, -⟩ := h.after hs hr ha.left
      have hlater := (h.sound.forward.test stop s).trans
        (State.later_moveTo _ (s.place.past c rest))
      have hmoved : s.Within ((exec.test stop s).2.moveTo (s.place.past c rest)) e :=
        ⟨hwithin.unlimited, hwithin.made⟩
      have hpast : (s.place.past c rest).IsIn (exec stop s).2.cursor.source := by
        rw [(h.sound.forward stop s).source]
        exact hs.place.past hrest
      obtain ⟨hout', hwithin'⟩ :=
        ih ((exec.test stop s).2.moveTo (s.place.past c rest)) (passed + c.utf8Size)
          (hready.moveTo hpast) rfl (ha.right hlater hmoved)
      rw [hrest, Exec.upTo_cons c rest passed hout]
      refine ⟨?_, hmoved.andThen hwithin'⟩
      rw [← Nat.add_assoc]
      exact hout'

/-! ## Executions -/

theorem perform (h : exec.Finds lib n) {kind : Kind RuleRef} {r : RuleRef} {p : Place}
    {outcome : Option Derivation} {e : Extent}
    (hk : Judgement.Performed lib.Yields kind r p outcome e) {s : State} (hs : lib.Ready s)
    (hplace : s.place = p) (ha : s.Affords n e) :
    (exec.perform r s kind).1 = outcome ∧ s.Within (exec.perform r s kind).2 e := by
  subst hplace
  cases hk with
  | terminal | text => exact ⟨rfl, ha.within_zero⟩
  | @sequence parts _ _ outcome _ hall =>
      obtain ⟨hout, hwithin⟩ := h.all hall s hs rfl ha
      refine ⟨?_, hwithin⟩
      rw [← hout]
      rfl
  | choice hfirst =>
      obtain ⟨hout, hwithin⟩ := h.firstOf hfirst s hs rfl ha
      refine ⟨?_, hwithin⟩
      rw [← hout]
      rfl
  | rep hrep =>
      obtain ⟨hout, hwithin⟩ := h.repeated hrep s s.place.rest hs rfl (Nat.le_refl _) ha
      refine ⟨?_, hwithin⟩
      rw [← hout]
      rfl
  | ahead hbody =>
      obtain ⟨hout, hwithin, -, -⟩ := h.after hs hbody ha
      refine ⟨?_, hwithin.unlimited, hwithin.made⟩
      rw [perform_ahead_fst, hout]
  | @notAhead body _ _ outcome _ hbody =>
      obtain ⟨hout, hwithin, -, -⟩ := h.after hs hbody ha
      refine ⟨?_, hwithin.unlimited, hwithin.made⟩
      rw [← hout]
      rfl
  | @upTo stop _ _ m _ hup =>
      obtain ⟨hout, hwithin⟩ := h.upTo hup s 0 hs rfl ha
      refine ⟨?_, hwithin.unlimited, hwithin.made⟩
      rw [Nat.zero_add] at hout
      rw [← hout]
      rfl
  | ref hbody | inherited hbody | label hbody =>
      obtain ⟨hout, hwithin, -, -⟩ := h.after hs hbody ha
      refine ⟨?_, hwithin⟩
      rw [← hout]
      rfl

/-- Without room no outcome can be reached, since all have some height. -/
theorem limited_none : (Exec.limited lib none).Finds lib 0 where
  sound := .limited_none
  finds r s outcome e _ hr ha := by
    have hpos := hr.height_pos
    have hheight := ha.height
    omega

theorem limited_some (h : exec.Finds lib n) (hclosed : lib.Closed) :
    (Exec.limited lib (some exec)).Finds lib (n + 1) where
  sound := h.sound.limited_some hclosed
  finds r s outcome e hs hr ha := by
    cases hr with
    | @intro _ rule _ _ e hrule hk =>
        have hcalls : s.cursor.calls.isSpent = false := by
          refine CallBudget.isSpent_eq_false_iff.2 fun limit hlimit => ?_
          have hle := ha.calls limit hlimit
          simp only [Extent.around] at hle
          omega
        have hnesting := (Cursor.reachedLimit_eq_false_iff.1 ha.unlimited).2
        have hstart : lib.Ready s.spendCall.enter := hs.change_cursor rfl rfl rfl rfl
        have ha' : s.spendCall.enter.Affords n e := by
          refine ⟨ha.unlimited, Nat.le_of_succ_le_succ ha.height, fun limit hlimit => ?_⟩
          have hle := ha.calls limit hlimit
          change s.cursor.calls.made + 1 + e.calls ≤ limit
          simp only [Extent.around] at hle
          omega
        obtain ⟨hout, hwithin⟩ := h.perform hk hstart rfl ha'
        rw [Exec.limited_of_rule hcalls hnesting hrule, hout]
        refine ⟨State.settle_fst _ _ _, ?_, ?_⟩
        · rw [State.reachedLimit_settle]
          exact hwithin.unlimited
        · rw [State.settle_calls]
          have hmade := hwithin.made
          change _ ≤ s.cursor.calls.made + 1 + e.calls at hmade
          change _ ≤ s.cursor.calls.made + (e.calls + 1)
          change (exec.perform r s.spendCall.enter rule.kind).2.cursor.calls.made ≤ _
          omega

theorem memoized (h : exec.Finds lib n) : (Exec.memoized exec).Finds lib n where
  sound := h.sound.memoized
  finds r s outcome e hs hr ha := by
    cases hmemo : s.memo with
    | none =>
        rw [Exec.memoized_of_none hmemo]
        exact h.finds r s outcome e hs hr ha
    | some memo =>
        have hreplayed : s.Within s e := ⟨ha.unlimited, Nat.le_add_right _ _⟩
        rcases hhit : memo.outcome? r s.place.offset with _ | _ | d
        · have ha' : s.countMiss.Affords n e := ⟨ha.unlimited, ha.height, ha.calls⟩
          obtain ⟨hout, hwithin⟩ := h.finds r s.countMiss outcome e hs.countMiss hr ha'
          rw [Exec.memoized_of_miss hmemo hhit, State.learn_of_unlimited _ _ _ hwithin.unlimited]
          exact ⟨hout, hwithin.unlimited, hwithin.made⟩
        · obtain ⟨e', hr', -⟩ := Sound.holds_of_recorded hs hmemo hhit
          rw [Exec.memoized_of_failure_hit hmemo hhit]
          exact ⟨(Library.Yields.unique hr' hr).1, hreplayed.unlimited, hreplayed.made⟩
        · obtain ⟨e', hr', -⟩ := Sound.holds_of_recorded hs hmemo hhit
          rw [Exec.memoized_of_hit hmemo hhit]
          exact ⟨(Library.Yields.unique hr' hr).1, hreplayed.unlimited, hreplayed.made⟩

end Finds

end Exec

/-- Every run of a rule of the library finds the outcome that the rule has if its limits are
enough for the extent of the outcome. -/
theorem Library.exec_finds {lib : Library} (h : lib.Closed) (room : Nat) :
    (lib.exec room).Finds lib room := by
  induction room with
  | zero => exact Exec.Finds.limited_none.memoized
  | succ room ih => exact (ih.limited_some h).memoized

end Peg
