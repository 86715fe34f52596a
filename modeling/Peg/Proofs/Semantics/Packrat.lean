import Peg.Proofs.Engine.Tally
import Peg.Proofs.Semantics.Completeness

/-!
# Nothing is evaluated twice

A run with a memo that exceeds no limit records an outcome for every miss, and never one that is
recorded already. What could go wrong is that a rule is asked for again at a place where its
outcome is still being found. But the outcomes that this takes all have less height than the one to
be found, so the rule is not among them at this place. Main statement: `Library.exec_learns`.
-/

namespace Peg

namespace State

/-- What the memo has on a rule at an offset, nothing if there is no memo. -/
def outcome? (s : State) (r : RuleRef) (offset : Nat) : Option (Option Derivation) :=
  s.memo.bind (·.outcome? r offset)

/-- The number of outcomes in the memo. -/
def recorded (s : State) : Nat := s.memo.elim 0 (·.table.size)

section Recall

variable {s : State} {r : RuleRef} {offset : Nat} (outcome : Option Derivation)

theorem outcome?_countMiss (r : RuleRef) (offset : Nat) :
    s.countMiss.outcome? r offset = s.outcome? r offset := by
  unfold outcome? countMiss
  cases s.memo <;> rfl

theorem recorded_countMiss : s.countMiss.recorded = s.recorded := by
  unfold recorded countMiss
  cases s.memo <;> rfl

theorem recorded_countFailureHit : s.countFailureHit.recorded = s.recorded := by
  unfold recorded countFailureHit
  cases s.memo <;> rfl

theorem recorded_noteReplay (r : RuleRef) (offset : Nat) :
    (s.noteReplay r offset).recorded = s.recorded := by
  obtain ⟨cursor, memo, replays⟩ := s
  cases memo <;> rfl

theorem outcome?_remember (hs : s.memo.isSome) {r' : RuleRef} {offset' : Nat} :
    (s.remember r offset outcome).outcome? r' offset' =
      if r = r' ∧ offset = offset' then some outcome else s.outcome? r' offset' := by
  obtain ⟨cursor, memo, replays⟩ := s
  obtain ⟨memo, rfl⟩ := Option.isSome_iff_exists.1 hs
  simp [outcome?, remember, Memo.outcome?, Memo.record, Std.HashMap.getElem?_insert]

theorem recorded_remember (hs : s.memo.isSome) (hnew : s.outcome? r offset = none) :
    (s.remember r offset outcome).recorded = s.recorded + 1 := by
  obtain ⟨cursor, memo, replays⟩ := s
  obtain ⟨memo, rfl⟩ := Option.isSome_iff_exists.1 hs
  have hnot : (r, offset) ∉ memo.table := by
    rw [Std.HashMap.mem_iff_isSome_getElem?]
    simpa [outcome?, Memo.outcome?] using hnew
  simp [recorded, remember, Memo.record, Std.HashMap.size_insert, hnot]

end Recall

/-- From `s` to `t` an outcome was recorded for every miss, and those recorded are outcomes of
height less than `n` of rules in `C`. -/
structure Learns (lib : Library) (C : RuleRef → Prop) (n : Nat) (s t : State) : Prop where
  count : t.stats.misses + s.recorded = s.stats.misses + t.recorded
  fresh : ∀ r offset, s.outcome? r offset = none → t.outcome? r offset ≠ none →
    C r ∧ ∀ p, p.IsIn s.cursor.source → p.offset = offset →
      ∃ outcome e, lib.Yields r p outcome e ∧ e.height < n

variable {lib : Library} {C : RuleRef → Prop} {n m : Nat} {s t u : State}

namespace Learns

theorem of_same (hmisses : t.stats.misses = s.stats.misses) (hrecorded : t.recorded = s.recorded)
    (houtcome : ∀ r offset, t.outcome? r offset = s.outcome? r offset) : s.Learns lib C n t where
  count := by rw [hmisses, hrecorded]
  fresh r offset hs ht := by
    rw [houtcome] at ht
    exact absurd hs ht

theorem refl (s : State) : s.Learns lib C n s := .of_same rfl rfl fun _ _ => rfl

theorem countFailureHit (s : State) : s.Learns lib C n s.countFailureHit := by
  obtain ⟨cursor, memo, replays⟩ := s
  cases memo <;> exact .of_same rfl rfl fun _ _ => rfl

theorem noteReplay (s : State) (r : RuleRef) (offset : Nat) :
    s.Learns lib C n (s.noteReplay r offset) := by
  obtain ⟨cursor, memo, replays⟩ := s
  cases memo <;> exact .of_same rfl rfl fun _ _ => rfl

theorem mono (h : s.Learns lib C n t) (hle : n ≤ m) : s.Learns lib C m t where
  count := h.count
  fresh r offset hs ht := by
    obtain ⟨hr, hyields⟩ := h.fresh r offset hs ht
    refine ⟨hr, fun p hp hoffset => ?_⟩
    obtain ⟨outcome, e, he, hheight⟩ := hyields p hp hoffset
    exact ⟨outcome, e, he, Nat.lt_of_lt_of_le hheight hle⟩

theorem trans (h : s.Learns lib C n t) (hlater : s.Later t) (h' : t.Learns lib C n u) :
    s.Learns lib C n u where
  count := by
    have hst := h.count
    have htu := h'.count
    omega
  fresh r offset hs hu := by
    by_cases ht : t.outcome? r offset = none
    · have hfresh := h'.fresh r offset ht hu
      rw [hlater.source] at hfresh
      exact hfresh
    · exact h.fresh r offset hs ht

theorem change {s' t' : State} (h : s.Learns lib C n t) (hs : s'.memo = s.memo)
    (hsource : s'.cursor.source = s.cursor.source) (ht : t'.memo = t.memo) :
    s'.Learns lib C n t' where
  count := by
    have hcount := h.count
    unfold stats recorded at hcount ⊢
    rw [hs, ht]
    exact hcount
  fresh r offset hnone hsome := by
    unfold outcome? at hnone hsome
    rw [hs] at hnone
    rw [ht] at hsome
    rw [hsource]
    exact h.fresh r offset hnone hsome

theorem andThen {e e' : Extent} {k : Nat} (h : s.Learns lib C (e.height + k) t)
    (hlater : s.Later t) (h' : t.Learns lib C (e'.height + k) u) :
    s.Learns lib C ((e.andThen e').height + k) u := by
  have hleft : e.height ≤ (e.andThen e').height := Nat.le_max_left _ _
  have hright : e'.height ≤ (e.andThen e').height := Nat.le_max_right _ _
  exact (h.mono (by omega)).trans hlater (h'.mono (by omega))

/-- The outcome of a rule is not recorded while it is being found, since that would be an outcome of
less height of the same rule at the same place. -/
theorem outcome?_eq_none {r : RuleRef} {outcome : Option Derivation} {e : Extent} {p : Place}
    (h : s.Learns lib C e.height t) (hp : p.IsIn s.cursor.source)
    (he : lib.Yields r p outcome e) (hmiss : s.outcome? r p.offset = none) :
    t.outcome? r p.offset = none := by
  cases hfound : t.outcome? r p.offset with
  | none => rfl
  | some _ =>
      have hne : t.outcome? r p.offset ≠ none := by simp [hfound]
      obtain ⟨-, hyields⟩ := h.fresh r p.offset hmiss hne
      obtain ⟨outcome', e', he', hheight⟩ := hyields p hp rfl
      obtain ⟨-, rfl⟩ := Library.Yields.unique he he'
      exact absurd hheight (Nat.lt_irrefl _)

end Learns

end State

namespace Exec

/-! ## Where a loop exceeds no limit, neither does its first execution -/

namespace Forward

variable {exec : Exec} {r : RuleRef} {s : State}

theorem unlimited_of_all (h : exec.Forward) {rs : List RuleRef}
    (hu : (exec.all (r :: rs) s).2.cursor.reachedLimit = false) :
    (exec r s).2.cursor.reachedLimit = false :=
  (all_head (h.all rs) r s).not_reachedLimit hu

theorem unlimited_of_firstOf (h : exec.Forward) {rs : List RuleRef}
    (hu : (exec.firstOf (r :: rs) s).2.cursor.reachedLimit = false) :
    (exec r s).2.cursor.reachedLimit = false :=
  (firstOf_head (h.firstOf rs) r s).not_reachedLimit hu

theorem unlimited_of_repeated (h : exec.Forward) {least count : Nat} {most : Option Nat}
    (hmost : most ≠ some count) {unread : List Char} {done : List Derivation}
    (hu : (exec.repeated r least most unread count done s).2.cursor.reachedLimit = false) :
    (exec r s).2.cursor.reachedLimit = false :=
  (repeated_head (fun _ _ _ => h.repeated _) hmost done s).not_reachedLimit hu

theorem unlimited_of_upTo (h : exec.Forward) {rest : List Char} {passed : Nat}
    (hu : (exec.upTo r rest passed s).2.cursor.reachedLimit = false) :
    (exec r s).2.cursor.reachedLimit = false :=
  (upTo_head (fun _ _ _ => h.upTo _ _) passed s).not_reachedLimit hu

end Forward

/-- Runs that exceed no limit learn what they take, of heights less than `k` above those of their
own outcomes. -/
structure Learning (lib : Library) (C : RuleRef → Prop) (n k : Nat) (exec : Exec) : Prop where
  sound : exec.Sound lib n
  learns : ∀ r s outcome e, C r → lib.Ready s → lib.Yields r s.place outcome e →
    (exec r s).2.cursor.reachedLimit = false → s.Learns lib C (e.height + k) (exec r s).2

namespace Learning

variable {lib : Library} {C : RuleRef → Prop} {n k : Nat} {exec : Exec}

theorem after (h : exec.Learning lib C n k) {r : RuleRef} (hr : C r) {s : State}
    {outcome : Option Derivation} {e : Extent} (hs : lib.Ready s)
    (he : lib.Yields r s.place outcome e) (hu : (exec r s).2.cursor.reachedLimit = false) :
    (exec r s).1 = outcome ∧ s.Learns lib C (e.height + k) (exec r s).2 ∧
      lib.Ready (exec r s).2 ∧ (exec r s).2.place = s.place.after outcome := by
  have hfollows := h.sound.follows r s he.knows hs
  obtain ⟨e', he', -⟩ := hfollows.leads.means hu
  obtain ⟨hout, -⟩ := Library.Yields.unique he' he
  refine ⟨hout, h.learns r s outcome e hr hs he hu, hfollows.leads.ready, ?_⟩
  rw [hfollows.place, hout]

/-! ## Loops -/

theorem all (h : exec.Learning lib C n k) {rs : List RuleRef} {p : Place}
    {outcome : Option (List Derivation)} {e : Extent}
    (hall : Judgement.All lib.Yields rs p outcome e) :
    ∀ s, (∀ r ∈ rs, C r) → lib.Ready s → s.place = p →
      (exec.all rs s).2.cursor.reachedLimit = false →
      s.Learns lib C (e.height + k) (exec.all rs s).2 := by
  induction hall with
  | nil => exact fun s _ _ _ _ => .refl s
  | @fail r rs p e he =>
      rintro s hrs hs rfl hu
      have hu' := h.sound.forward.unlimited_of_all hu
      obtain ⟨hout, hlearns, -, -⟩ := h.after (hrs r List.mem_cons_self) hs he hu'
      rw [Exec.all_cons_none rs hout]
      exact hlearns
  | @cons r rs p d outcome e e' he _ ih =>
      rintro s hrs hs rfl hu
      obtain ⟨hr, hrest⟩ := List.forall_mem_cons.1 hrs
      have hu' := h.sound.forward.unlimited_of_all hu
      obtain ⟨hout, hlearns, hready, hplace⟩ := h.after hr hs he hu'
      rw [Exec.all_cons_some rs hout] at hu ⊢
      exact hlearns.andThen (h.sound.forward r s) (ih _ hrest hready hplace hu)

theorem firstOf (h : exec.Learning lib C n k) {rs : List RuleRef} {p : Place}
    {outcome : Option Derivation} {e : Extent}
    (hfirst : Judgement.First lib.Yields rs p outcome e) :
    ∀ s, (∀ r ∈ rs, C r) → lib.Ready s → s.place = p →
      (exec.firstOf rs s).2.cursor.reachedLimit = false →
      s.Learns lib C (e.height + k) (exec.firstOf rs s).2 := by
  induction hfirst with
  | nil => exact fun s _ _ _ _ => .refl s
  | @found r rs p d e he =>
      rintro s hrs hs rfl hu
      have hu' := h.sound.forward.unlimited_of_firstOf hu
      obtain ⟨hout, hlearns, -, -⟩ := h.after (hrs r List.mem_cons_self) hs he hu'
      rw [Exec.firstOf_cons_some rs hout]
      exact hlearns
  | @next r rs p outcome e e' he _ ih =>
      rintro s hrs hs rfl hu
      obtain ⟨hr, hrest⟩ := List.forall_mem_cons.1 hrs
      have hu' := h.sound.forward.unlimited_of_firstOf hu
      obtain ⟨hout, hlearns, hready, hplace⟩ := h.after hr hs he hu'
      rw [Exec.firstOf_cons_none rs hout] at hu ⊢
      exact hlearns.andThen (h.sound.forward r s) (ih _ hrest hready hplace hu)

theorem repeated (h : exec.Learning lib C n k) {count least : Nat} {most : Option Nat}
    {r : RuleRef} (hr : C r) {p : Place} {outcome : Option (List Derivation)} {e : Extent}
    (hrep : Judgement.Repeated lib.Yields count r least most p outcome e) :
    ∀ s unread done, lib.Ready s → s.place = p →
      (exec.repeated r least most unread count done s).2.cursor.reachedLimit = false →
      s.Learns lib C (e.height + k) (exec.repeated r least most unread count done s).2 := by
  induction hrep with
  | full hmost =>
      intro s unread done _ _ _
      rw [Exec.repeated_full unread done hmost]
      exact .refl s
  | @stop count r least most p e hmost he =>
      rintro s unread done hs rfl hu
      have hu' := h.sound.forward.unlimited_of_repeated hmost hu
      obtain ⟨hout, hlearns, -, -⟩ := h.after hr hs he hu'
      rw [Exec.repeated_none unread done hmost hout]
      exact hlearns
  | @empty count r least most p d e hmost he hlen =>
      rintro s unread done hs rfl hu
      have hu' := h.sound.forward.unlimited_of_repeated hmost hu
      obtain ⟨hout, hlearns, -, -⟩ := h.after hr hs he hu'
      rw [Exec.repeated_empty unread done hmost hout hlen]
      exact hlearns
  | @more count r least most p d outcome e e' hmost he hlen _ ih =>
      rintro s unread done hs rfl hu
      have hu' := h.sound.forward.unlimited_of_repeated hmost hu
      obtain ⟨hout, hlearns, hready, hplace⟩ := h.after hr hs he hu'
      cases unread with
      | nil =>
          rw [Exec.repeated_nil done hmost hout hlen]
          have hle : e.height ≤ (e.andThen e').height := Nat.le_max_left _ _
          exact hlearns.mono (by omega)
      | cons c unread =>
          rw [Exec.repeated_cons c unread done hmost hout hlen] at hu ⊢
          exact hlearns.andThen (h.sound.forward r s) (ih hr _ _ _ hready hplace hu)

theorem upTo (h : exec.Learning lib C n k) {p : Place} {stop : RuleRef} (hstop : C stop) {m : Nat}
    {e : Extent} (hup : Judgement.UpTo lib.Yields p stop m e) :
    ∀ s passed, lib.Ready s → s.place = p →
      (exec.upTo stop p.rest passed s).2.cursor.reachedLimit = false →
      s.Learns lib C (e.height + k) (exec.upTo stop p.rest passed s).2 := by
  induction hup with
  | found he =>
      rintro s passed hs rfl hu
      have hu' := h.sound.forward.unlimited_of_upTo hu
      obtain ⟨hout, hlearns, -, -⟩ := h.after hstop hs he hu'
      rw [Exec.upTo_found _ passed hout]
      exact hlearns.change rfl rfl rfl
  | ended he hrest =>
      rintro s passed hs rfl hu
      have hu' := h.sound.forward.unlimited_of_upTo hu
      obtain ⟨hout, hlearns, -, -⟩ := h.after hstop hs he hu'
      rw [hrest, Exec.upTo_nil passed hout]
      exact hlearns.change rfl rfl rfl
  | @past p stop c rest m e e' he hrest _ ih =>
      rintro s passed hs rfl hu
      have hu' := h.sound.forward.unlimited_of_upTo hu
      obtain ⟨hout, hlearns, hready, -⟩ := h.after hstop hs he hu'
      have hmoved : s.Learns lib C (e.height + k)
          ((exec.test stop s).2.moveTo (s.place.past c rest)) := hlearns.change rfl rfl rfl
      have hlater := (h.sound.forward.test stop s).trans
        (State.later_moveTo _ (s.place.past c rest))
      have hpast : (s.place.past c rest).IsIn (exec stop s).2.cursor.source := by
        rw [(h.sound.forward stop s).source]
        exact hs.place.past hrest
      rw [hrest, Exec.upTo_cons c rest passed hout] at hu ⊢
      exact hmoved.andThen hlater (ih hstop _ _ (hready.moveTo hpast) rfl hu)

/-! ## Executions -/

theorem perform (h : exec.Learning lib C n k) {kind : Kind RuleRef} {r : RuleRef}
    (htargets : ∀ t ∈ kind.targets r, C t) {outcome : Option Derivation} {e : Extent} {s : State}
    (hk : Judgement.Performed lib.Yields kind r s.place outcome e) (hs : lib.Ready s)
    (hu : (exec.perform r s kind).2.cursor.reachedLimit = false) :
    s.Learns lib C (e.height + k) (exec.perform r s kind).2 := by
  cases hk with
  | terminal | text => exact .refl s
  | sequence hall =>
      exact h.all hall s (fun part hpart => htargets part (List.mem_append_left _ hpart)) hs rfl hu
  | choice hfirst =>
      exact h.firstOf hfirst s (fun option hoption => htargets option (List.mem_append_left _ hoption))
        hs rfl hu
  | rep hrep => exact h.repeated (htargets _ List.mem_cons_self) hrep s _ _ hs rfl hu
  | ahead hbody | notAhead hbody =>
      obtain ⟨-, hlearns, -, -⟩ := h.after (htargets _ List.mem_cons_self) hs hbody hu
      exact hlearns.change rfl rfl rfl
  | upTo hup =>
      have hlearns := h.upTo (htargets _ List.mem_cons_self) hup s 0 hs rfl hu
      exact hlearns.change rfl rfl rfl
  | ref hbody | inherited hbody | label hbody =>
      obtain ⟨-, hlearns, -, -⟩ := h.after (htargets _ List.mem_cons_self) hs hbody hu
      exact hlearns

theorem limited_none : (Exec.limited lib none).Learning lib C 0 0 where
  sound := .limited_none
  learns r s outcome e _ _ _ hu := by
    cases hcalls : s.cursor.calls.isSpent with
    | true =>
        rw [Exec.limited_of_isSpent none hcalls, State.reachedLimit_refuseCall] at hu
        cases hu
    | false =>
        rw [Exec.limited_none hcalls, State.reachedLimit_refuseNesting] at hu
        cases hu

/-- What an execution takes has less height than its own outcome. -/
theorem limited_some (h : exec.Learning lib C n 1) (hclosed : lib.Closed)
    (htargets : ∀ r rule, C r → lib.rule? r = some rule → ∀ t ∈ rule.kind.targets r, C t) :
    (Exec.limited lib (some exec)).Learning lib C (n + 1) 0 where
  sound := h.sound.limited_some hclosed
  learns r s outcome e hr hs he hu := by
    cases he with
    | @intro _ rule _ _ e hrule hk =>
        cases hcalls : s.cursor.calls.isSpent with
        | true =>
            rw [Exec.limited_of_isSpent (some exec) hcalls, State.reachedLimit_refuseCall] at hu
            cases hu
        | false =>
            cases hnesting : s.cursor.nesting.exceeded with
            | true =>
                rw [Exec.limited_of_exceeded hcalls hnesting,
                  State.reachedLimit_refuseNesting] at hu
                cases hu
            | false =>
                have hready : lib.Ready s.spendCall.enter := hs.change_cursor rfl rfl rfl rfl
                rw [Exec.limited_of_rule hcalls hnesting hrule] at hu ⊢
                rw [State.reachedLimit_settle] at hu
                have hlearns : s.spendCall.enter.Learns lib C (e.height + 1)
                    (exec.perform r s.spendCall.enter rule.kind).2 :=
                  h.perform (htargets r rule hr hrule) hk hready hu
                refine hlearns.change rfl rfl ?_
                cases (exec.perform r s.spendCall.enter rule.kind).1 <;> rfl

/-- Recording the outcome makes up for the miss. -/
theorem learns_of_miss {r : RuleRef} (hr : C r) {s t : State} {outcome : Option Derivation}
    {e : Extent} (hs : s.memo.isSome) (ht : t.memo.isSome)
    (hplace : s.place.IsIn s.cursor.source) (he : lib.Yields r s.place outcome e)
    (hmiss : s.outcome? r s.place.offset = none) (hlearns : s.countMiss.Learns lib C e.height t) :
    s.Learns lib C (e.height + 1) (t.remember r s.place.offset outcome) where
  count := by
    have hnone : s.countMiss.outcome? r s.place.offset = none :=
      (State.outcome?_countMiss r _).trans hmiss
    have hnew : t.outcome? r s.place.offset = none := hlearns.outcome?_eq_none hplace he hnone
    have hcount := hlearns.count
    rw [State.stats_countMiss hs, State.recorded_countMiss] at hcount
    rw [State.stats_remember, State.recorded_remember outcome ht hnew]
    simp only at hcount
    omega
  fresh r' offset hnone hsome := by
    rw [State.outcome?_remember outcome ht] at hsome
    split at hsome
    · next hkey =>
        obtain ⟨rfl, rfl⟩ := hkey
        refine ⟨hr, fun p hp hoffset => ?_⟩
        obtain rfl := hp.eq_of_offset_eq hplace hoffset
        exact ⟨outcome, e, he, Nat.lt_succ_self _⟩
    · have hnone' : s.countMiss.outcome? r' offset = none :=
        (State.outcome?_countMiss r' _).trans hnone
      exact (hlearns.mono (Nat.le_succ _)).fresh r' offset hnone' hsome

theorem memoized (h : exec.Learning lib C n 0) : (Exec.memoized exec).Learning lib C n 1 where
  sound := h.sound.memoized
  learns r s outcome e hr hs he hu := by
    cases hmemo : s.memo with
    | none =>
        rw [Exec.memoized_of_none hmemo] at hu ⊢
        exact (h.learns r s outcome e hr hs he hu).mono (Nat.le_succ _)
    | some memo =>
        have houtcome : s.outcome? r s.place.offset = memo.outcome? r s.place.offset := by
          simp [State.outcome?, hmemo]
        rcases hhit : memo.outcome? r s.place.offset with _ | _ | d
        · rw [Exec.memoized_of_miss hmemo hhit] at hu ⊢
          rw [State.learn_cursor] at hu
          have hsome : s.memo.isSome := by rw [hmemo]; rfl
          have hmiss : s.countMiss.memo.isSome := by rw [State.countMiss, hmemo]; rfl
          have hmemo' : (exec r s.countMiss).2.memo.isSome := by
            rw [(h.sound.forward r s.countMiss).memo]
            exact hmiss
          obtain ⟨hout, hlearns, -, -⟩ := h.after hr hs.countMiss he hu
          rw [State.learn_of_unlimited _ _ _ hu, hout]
          exact learns_of_miss hr hsome hmemo' hs.place he (houtcome.trans hhit) hlearns
        · rw [Exec.memoized_of_failure_hit hmemo hhit]
          exact State.Learns.countFailureHit s
        · rw [Exec.memoized_of_hit hmemo hhit]
          exact (State.Learns.noteReplay s r s.place.offset).change rfl rfl rfl

end Learning

end Exec

/-- Every run of a rule that exceeds no limit learns what it takes. -/
theorem Library.exec_learns {lib : Library} (h : lib.Closed) {C : RuleRef → Prop}
    (htargets : ∀ r rule, C r → lib.rule? r = some rule → ∀ t ∈ rule.kind.targets r, C t)
    (room : Nat) : (lib.exec room).Learning lib C room 1 := by
  induction room with
  | zero => exact Exec.Learning.limited_none.memoized
  | succ room ih => exact (ih.limited_some h htargets).memoized

end Peg
