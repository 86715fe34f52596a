import Peg.Proofs.Engine.Later
import Peg.Proofs.Grammar.Built
import Peg.Proofs.Semantics.Basic

/-!
# What runs find holds

A run that exceeds no limit finds the outcome of the rule, whatever it takes from the memo, and
the furthest offset and the calls it made are those of the extent of the outcome. The memo is part
of this: `Library.Ready` says that every outcome in it holds, and every run keeps that, also one
that exceeds a limit, since such a run records nothing from then on. Main statement:
`Library.exec_sound`.
-/

namespace Peg

/-- The state `t` comes after `s` and after executions of the extent, nested `n` deep at most. Calls
are only counted exactly if nothing is replayed. -/
structure State.Spends (n : Nat) (s t : State) (e : Extent) : Prop where
  furthest : t.cursor.furthest = max s.cursor.furthest e.reach
  made : s.memo = none → t.cursor.calls.made = s.cursor.calls.made + e.calls
  height : s.memo = none → e.height ≤ n

theorem State.Spends.zero (n : Nat) (s : State) : s.Spends n s .zero where
  furthest := (Nat.max_zero _).symm
  made _ := rfl
  height _ := Nat.zero_le n

theorem State.Spends.andThen {n : Nat} {s t u : State} {e e' : Extent} (h : s.Spends n t e)
    (hlater : s.Later t) (h' : t.Spends n u e') : s.Spends n u (e.andThen e') where
  furthest := by
    rw [h'.furthest, h.furthest, Nat.max_assoc]
    rfl
  made hmemo := by
    rw [h'.made (hlater.memo_eq_none hmemo), h.made hmemo, Nat.add_assoc]
    rfl
  height hmemo := Nat.max_le.2 ⟨h.height hmemo, h'.height (hlater.memo_eq_none hmemo)⟩

theorem State.Spends.of_memo {n : Nat} {s t : State} {memo : Memo} {e : Extent}
    (hmemo : s.memo = some memo) (hfurthest : t.cursor.furthest = max s.cursor.furthest e.reach) :
    s.Spends n t e := by
  refine ⟨hfurthest, fun hnone => ?_, fun hnone => ?_⟩
  · rw [hmemo] at hnone
    cases hnone
  · rw [hmemo] at hnone
    cases hnone

namespace Library

/-- The rule has the outcome at the offset of the text, and what it takes reaches no further than
`furthest`. -/
def HoldsAt (lib : Library) (text : List Char) (furthest : Nat) (r : RuleRef) (offset : Nat)
    (outcome : Option Derivation) : Prop :=
  ∃ p e, p.IsIn text ∧ p.offset = offset ∧ lib.Yields r p outcome e ∧ e.reach ≤ furthest

/-- The cursor is at a place of the text, and the memo says nothing wrong about it. -/
structure Ready (lib : Library) (s : State) : Prop where
  place : s.place.IsIn s.cursor.source
  memo : ∀ memo ∈ s.memo, ∀ r offset outcome, memo.outcome? r offset = some outcome →
    lib.HoldsAt s.cursor.source s.cursor.furthest r offset outcome

variable {lib : Library}

theorem HoldsAt.mono {text : List Char} {furthest later : Nat} {r : RuleRef} {offset : Nat}
    {outcome : Option Derivation} (h : lib.HoldsAt text furthest r offset outcome)
    (hle : furthest ≤ later) : lib.HoldsAt text later r offset outcome := by
  obtain ⟨p, e, hp, hoffset, hyields, hreach⟩ := h
  exact ⟨p, e, hp, hoffset, hyields, Nat.le_trans hreach hle⟩

namespace Ready

variable {s t : State}

theorem change (h : lib.Ready s) (hplace : t.place.IsIn t.cursor.source)
    (hsource : t.cursor.source = s.cursor.source)
    (hfurthest : s.cursor.furthest ≤ t.cursor.furthest)
    (hmemo : ∀ memo ∈ t.memo, ∃ memo' ∈ s.memo, memo'.table = memo.table) : lib.Ready t where
  place := hplace
  memo memo hm r offset outcome hout := by
    obtain ⟨memo', hm', htable⟩ := hmemo memo hm
    have hout' : memo'.outcome? r offset = some outcome := by
      unfold Memo.outcome? at hout ⊢
      rw [htable]
      exact hout
    rw [hsource]
    exact (h.memo memo' hm' r offset outcome hout').mono hfurthest

theorem change_cursor (h : lib.Ready s) (hplace : t.place = s.place)
    (hsource : t.cursor.source = s.cursor.source)
    (hfurthest : t.cursor.furthest = s.cursor.furthest) (hmemo : t.memo = s.memo) :
    lib.Ready t := by
  refine h.change ?_ hsource (Nat.le_of_eq hfurthest.symm) ?_
  · rw [hplace, hsource]
    exact h.place
  · rw [hmemo]
    exact fun memo hm => ⟨memo, hm, rfl⟩

theorem moveTo (h : lib.Ready s) {p : Place} (hp : p.IsIn s.cursor.source) :
    lib.Ready (s.moveTo p) :=
  h.change hp rfl (Nat.le_refl _) fun memo hm => ⟨memo, hm, rfl⟩

theorem advanceTo (h : lib.Ready s) {p : Place} (hp : p.IsIn s.cursor.source) :
    lib.Ready (s.advanceTo p) :=
  h.change hp rfl (Nat.le_max_left _ _) fun memo hm => ⟨memo, hm, rfl⟩

theorem of_mem_map (f : Memo → Memo) (hf : ∀ memo, (f memo).table = memo.table)
    {memo? : Option Memo} : ∀ memo ∈ memo?.map f, ∃ memo' ∈ memo?, memo'.table = memo.table := by
  intro memo hm
  obtain ⟨memo', hm', rfl⟩ := Option.map_eq_some_iff.1 hm
  exact ⟨memo', hm', (hf memo').symm⟩

theorem countMiss (h : lib.Ready s) : lib.Ready s.countMiss :=
  h.change h.place rfl (Nat.le_refl _) (of_mem_map Memo.countMiss fun _ => rfl)

theorem countFailureHit (h : lib.Ready s) : lib.Ready s.countFailureHit :=
  h.change h.place rfl (Nat.le_refl _) (of_mem_map Memo.countFailureHit fun _ => rfl)

theorem noteReplay (h : lib.Ready s) (r : RuleRef) (offset : Nat) :
    lib.Ready (s.noteReplay r offset) :=
  h.change h.place rfl (Nat.le_refl _) (of_mem_map Memo.countHit fun _ => rfl)

theorem remember (h : lib.Ready s) {r : RuleRef} {offset : Nat} {outcome : Option Derivation}
    (hout : lib.HoldsAt s.cursor.source s.cursor.furthest r offset outcome) :
    lib.Ready (s.remember r offset outcome) where
  place := h.place
  memo memo hm r' offset' outcome' hout' := by
    obtain ⟨memo', hm', rfl⟩ := Option.map_eq_some_iff.1 hm
    simp only [Memo.outcome?, Memo.record, Std.HashMap.getElem?_insert] at hout'
    split at hout'
    · next heq =>
        rw [beq_iff_eq, Prod.mk.injEq] at heq
        obtain ⟨rfl, rfl⟩ := heq
        cases hout'
        exact hout
    · exact h.memo memo' hm' r' offset' outcome' hout'

theorem of_memo_empty (memo? : Option Memo) (hplace : s.place.IsIn s.cursor.source)
    (hmemo : s.memo = memo?.map fun _ => {}) : lib.Ready s where
  place := hplace
  memo memo hm r offset outcome hout := by
    rw [hmemo] at hm
    obtain ⟨_, _, rfl⟩ := Option.map_eq_some_iff.1 hm
    simp [Memo.outcome?] at hout

end Ready

theorem ready_start {cursor : Cursor} (hplace : cursor.place.IsIn cursor.source)
    (memoize : Bool) : lib.Ready (.start cursor memoize) := by
  cases memoize with
  | false => exact .of_memo_empty none hplace rfl
  | true => exact .of_memo_empty (some {}) hplace rfl

end Library

/-! ## Runs -/

namespace Library

/-- A run from `s` to `t` leaves the memo right, and what `means` says of its extent holds unless a
limit was exceeded. -/
structure Leads (lib : Library) (n : Nat) (s t : State) (means : Extent → Prop) : Prop where
  ready : lib.Ready t
  means : t.cursor.reachedLimit = false → ∃ e, means e ∧ s.Spends n t e

/-- What the run of a rule from `s` on keeps to: the cursor is moved behind the match, which covers
whole characters, or back, and the outcome holds unless a limit was exceeded. -/
structure Follows (lib : Library) (n : Nat) (r : RuleRef) (s : State)
    (result : Option Derivation × State) : Prop where
  splits : ∀ d ∈ result.1, Splits d.length s.place.rest
  place : result.2.place = s.place.after result.1
  leads : lib.Leads n s result.2 (lib.Yields r s.place result.1)

variable {lib : Library} {n : Nat} {s t u : State} {means means' : Extent → Prop}

namespace Leads

theorem refl (h : lib.Ready s) (hmeans : means .zero) : lib.Leads n s s means :=
  ⟨h, fun _ => ⟨.zero, hmeans, .zero n s⟩⟩

theorem imp (h : lib.Leads n s t means) (himp : ∀ e, means e → means' e) :
    lib.Leads n s t means' := by
  refine ⟨h.ready, fun ht => ?_⟩
  obtain ⟨e, he, hspends⟩ := h.means ht
  exact ⟨e, himp e he, hspends⟩

theorem andThen {combined : Extent → Prop} (h : lib.Leads n s t means) (hst : s.Later t)
    (htu : t.Later u) (h' : lib.Leads n t u means')
    (hcombine : ∀ e e', means e → means' e' → combined (e.andThen e')) :
    lib.Leads n s u combined := by
  refine ⟨h'.ready, fun hu => ?_⟩
  obtain ⟨e, he, hspends⟩ := h.means (htu.not_reachedLimit hu)
  obtain ⟨e', he', hspends'⟩ := h'.means hu
  exact ⟨e.andThen e', hcombine e e' he he', hspends.andThen hst hspends'⟩

theorem moveTo (h : lib.Leads n s t means) {p : Place} (hp : p.IsIn t.cursor.source) :
    lib.Leads n s (t.moveTo p) means := by
  refine ⟨h.ready.moveTo hp, fun ht => ?_⟩
  obtain ⟨e, he, hspends⟩ := h.means ht
  exact ⟨e, he, hspends.furthest, hspends.made, hspends.height⟩

end Leads

theorem Follows.place_of_some {r : RuleRef} {result : Option Derivation × State} {d : Derivation}
    (h : lib.Follows n r s result) (hd : result.1 = some d) :
    result.2.place = s.place.advance d.length := by
  rw [h.place, hd]
  rfl

theorem Follows.place_of_none {r : RuleRef} {result : Option Derivation × State}
    (h : lib.Follows n r s result) (hnone : result.1 = none) : result.2.place = s.place := by
  rw [h.place, hnone]
  rfl

end Library

namespace Exec

/-- Runs of rules of the library find what holds, with executions nested `n` deep at most. -/
structure Sound (lib : Library) (n : Nat) (exec : Exec) : Prop where
  forward : exec.Forward
  follows : ∀ r s, lib.Knows r → lib.Ready s → lib.Follows n r s (exec r s)

namespace Sound

variable {lib : Library} {n : Nat} {exec : Exec}

/-! ## Loops -/

theorem test (h : exec.Sound lib n) {r : RuleRef} (hr : lib.Knows r) {s : State}
    (hs : lib.Ready s) :
    lib.Leads n s (exec.test r s).2 (lib.Yields r s.place (exec r s).1) := by
  refine (h.follows r s hr hs).leads.moveTo ?_
  rw [(h.forward r s).source]
  exact hs.place

theorem all (h : exec.Sound lib n) {rs : List RuleRef} (hrs : ∀ r ∈ rs, lib.Knows r) {s : State}
    (hs : lib.Ready s) :
    (∀ ds ∈ (exec.all rs s).1, Splits (Derivation.totalLength ds) s.place.rest) ∧
      lib.Leads n s (exec.all rs s).2
        (Judgement.All lib.Yields rs s.place (exec.all rs s).1) := by
  induction rs generalizing s with
  | nil =>
      refine ⟨fun ds hds => ?_, .refl hs .nil⟩
      cases hds
      exact Splits.zero _
  | cons r rs ih =>
      obtain ⟨hr, hrest⟩ := List.forall_mem_cons.1 hrs
      have hfollows := h.follows r s hr hs
      cases hout : (exec r s).1 with
      | none =>
          rw [Exec.all_cons_none rs hout]
          refine ⟨fun ds hds => ?_, hfollows.leads.imp fun e he => ?_⟩
          · cases hds
          · rw [hout] at he
            exact .fail he
      | some d =>
          obtain ⟨hsplits, hleads⟩ := ih hrest hfollows.leads.ready
          rw [hfollows.place_of_some hout] at hsplits hleads
          rw [Exec.all_cons_some rs hout]
          refine ⟨fun ds hds => ?_, ?_⟩
          · obtain ⟨tail, htail, rfl⟩ := Option.map_eq_some_iff.1 hds
            exact (hfollows.splits d hout).add (hsplits tail htail)
          · refine hfollows.leads.andThen (h.forward r s) (h.forward.all rs _) hleads ?_
            intro e e' he he'
            rw [hout] at he
            exact .cons he he'

theorem firstOf (h : exec.Sound lib n) {rs : List RuleRef} (hrs : ∀ r ∈ rs, lib.Knows r)
    {s : State} (hs : lib.Ready s) :
    (∀ d ∈ (exec.firstOf rs s).1, Splits d.length s.place.rest) ∧
      lib.Leads n s (exec.firstOf rs s).2
        (Judgement.First lib.Yields rs s.place (exec.firstOf rs s).1) := by
  induction rs generalizing s with
  | nil =>
      refine ⟨fun d hd => ?_, .refl hs .nil⟩
      cases hd
  | cons r rs ih =>
      obtain ⟨hr, hrest⟩ := List.forall_mem_cons.1 hrs
      have hfollows := h.follows r s hr hs
      cases hout : (exec r s).1 with
      | none =>
          obtain ⟨hsplits, hleads⟩ := ih hrest hfollows.leads.ready
          rw [hfollows.place_of_none hout] at hsplits hleads
          rw [Exec.firstOf_cons_none rs hout]
          refine ⟨hsplits, ?_⟩
          refine hfollows.leads.andThen (h.forward r s) (h.forward.firstOf rs _) hleads ?_
          intro e e' he he'
          rw [hout] at he
          exact .next he he'
      | some d =>
          rw [Exec.firstOf_cons_some rs hout]
          refine ⟨fun d' hd' => ?_, hfollows.leads.imp fun e he => ?_⟩
          · cases hd'
            exact hfollows.splits d hout
          · rw [hout] at he
            exact .found he

/-- There are at least as many characters in `unread` as there are unread ones, so the rounds do not
run out of them. -/
theorem repeated (h : exec.Sound lib n) {r : RuleRef} (hr : lib.Knows r) (least : Nat)
    (most : Option Nat) (unread : List Char) (count : Nat) {s : State} (hs : lib.Ready s)
    (hunread : s.place.rest.length ≤ unread.length) :
    (∀ ds ∈ (exec.repeated r least most unread count [] s).1,
        Splits (Derivation.totalLength ds) s.place.rest) ∧
      lib.Leads n s (exec.repeated r least most unread count [] s).2
        (Judgement.Repeated lib.Yields count r least most s.place
          (exec.repeated r least most unread count [] s).1) := by
  by_cases hmost : most = some count
  · rw [Exec.repeated_full unread [] hmost]
    exact ⟨Judgement.splits_of_mem_enough, .refl hs (.full hmost)⟩
  have hfollows := h.follows r s hr hs
  have hsplits := hfollows.splits
  have hleads := hfollows.leads
  cases hout : (exec r s).1 with
  | none =>
      rw [hout] at hleads
      rw [Exec.repeated_none unread [] hmost hout]
      exact ⟨Judgement.splits_of_mem_enough, hleads.imp fun _ => .stop hmost⟩
  | some d =>
      rw [hout] at hleads hsplits
      have hd := hsplits d rfl
      by_cases hlen : d.length = 0
      · rw [Exec.repeated_empty unread [] hmost hout hlen]
        refine ⟨fun ds hds => ?_, hleads.imp fun _ he => .empty hmost he hlen⟩
        cases hds
        exact hd
      · obtain ⟨c, rest, rfl, hrest⟩ := hd.exists_cons hlen hunread
        have hplace := hfollows.place_of_some hout
        rw [← hplace] at hrest
        obtain ⟨hcovers, hleads'⟩ := repeated h hr least most rest (count + 1) hleads.ready hrest
        rw [hplace] at hcovers hleads'
        rw [Exec.repeated_more c rest hmost hout hlen]
        refine ⟨fun ds hds => ?_, ?_⟩
        · obtain ⟨tail, htail, rfl⟩ := Option.map_eq_some_iff.1 hds
          exact hd.add (hcovers tail htail)
        · exact hleads.andThen (h.forward r s) (h.forward.repeated _ _ _ _) hleads'
            fun e e' he he' => .more hmost he hlen he'
termination_by unread.length

theorem upTo (h : exec.Sound lib n) {stop : RuleRef} (hstop : lib.Knows stop) {rest : List Char}
    (passed : Nat) {s : State} (hs : lib.Ready s) (hrest : s.place.rest = rest) :
    ∃ m, (exec.upTo stop rest passed s).1 = passed + m ∧ Splits m s.place.rest ∧
      lib.Leads n s (exec.upTo stop rest passed s).2
        (Judgement.UpTo lib.Yields s.place stop m) := by
  have hleads := h.test hstop hs
  cases hout : (exec stop s).1 with
  | some d =>
      rw [hout] at hleads
      rw [Exec.upTo_found rest passed hout]
      exact ⟨0, rfl, Splits.zero _, hleads.imp fun _ => .found⟩
  | none =>
      rw [hout] at hleads
      cases rest with
      | nil =>
          rw [Exec.upTo_nil passed hout]
          exact ⟨0, rfl, Splits.zero _, hleads.imp fun _ he => .ended he hrest⟩
      | cons c rest =>
          have hlater := h.forward.test stop s
          have hpast : (s.place.past c rest).IsIn (exec.test stop s).2.cursor.source := by
            rw [hlater.source]
            exact hs.place.past hrest
          have hplace : ((exec.test stop s).2.moveTo (s.place.past c rest)).place =
              s.place.past c rest := rfl
          obtain ⟨m, hm, hsplits, hleads'⟩ :=
            upTo h hstop (passed + c.utf8Size) (hleads.ready.moveTo hpast) rfl
          rw [hplace] at hsplits hleads'
          rw [Exec.upTo_cons c rest passed hout]
          refine ⟨c.utf8Size + m, ?_, ?_, ?_⟩
          · rw [← Nat.add_assoc]
            exact hm
          · rw [hrest]
            exact Splits.cons hsplits c
          · exact (hleads.moveTo hpast).andThen (hlater.trans (State.later_moveTo _ _))
              (h.forward.upTo _ _ _ _) hleads' fun e e' he he' => .past he hrest he'

/-! ## Executions -/

theorem wrap (h : exec.Sound lib n) (r : RuleRef) {inner : RuleRef} (hinner : lib.Knows inner)
    {s : State} (hs : lib.Ready s) :
    (∀ d ∈ (exec.wrap r inner s).1, Splits d.length s.place.rest) ∧
      lib.Leads n s (exec.wrap r inner s).2 (lib.Yields inner s.place (exec inner s).1) := by
  have hfollows := h.follows inner s hinner hs
  refine ⟨fun d hd => ?_, hfollows.leads⟩
  obtain ⟨d', hd', rfl⟩ := Option.map_eq_some_iff.1 hd
  exact hfollows.splits d' hd'

theorem perform (h : exec.Sound lib n) {r : RuleRef} {kind : Kind RuleRef}
    (htargets : ∀ t ∈ kind.targets r, lib.Knows t) {s : State} (hs : lib.Ready s) :
    (∀ d ∈ (exec.perform r s kind).1, Splits d.length s.place.rest) ∧
      lib.Leads n s (exec.perform r s kind).2
        (Judgement.Performed lib.Yields kind r s.place (exec.perform r s kind).1) := by
  cases kind with
  | terminal matcher =>
      refine ⟨fun d hd => ?_, .refl hs .terminal⟩
      obtain ⟨m, hm, rfl⟩ := Option.map_eq_some_iff.1 hd
      exact Matcher.matchAt_splits hm
  | text literal ignoreCase =>
      refine ⟨fun d hd => ?_, .refl hs .text⟩
      obtain ⟨m, hm, rfl⟩ := Option.map_eq_some_iff.1 hd
      exact literalAt_splits hm
  | sequence parts =>
      have hparts : ∀ part ∈ parts.map r.sibling, lib.Knows part :=
        fun part hpart => htargets part (List.mem_append_left _ hpart)
      obtain ⟨hsplits, hleads⟩ := h.all hparts hs
      refine ⟨fun d hd => ?_, hleads.imp fun _ => .sequence⟩
      obtain ⟨ds, hds, rfl⟩ := Option.map_eq_some_iff.1 hd
      exact hsplits ds hds
  | choice options =>
      have hoptions : ∀ option ∈ options.map r.sibling, lib.Knows option :=
        fun option hoption => htargets option (List.mem_append_left _ hoption)
      obtain ⟨hsplits, hleads⟩ := h.firstOf hoptions hs
      refine ⟨fun d hd => ?_, hleads.imp fun _ => .choice⟩
      obtain ⟨inner, hinner, rfl⟩ := Option.map_eq_some_iff.1 hd
      exact hsplits inner hinner
  | rep body least most =>
      have hbody : lib.Knows (r.sibling body) := htargets _ List.mem_cons_self
      obtain ⟨hsplits, hleads⟩ := h.repeated hbody least most s.place.rest 0 hs (Nat.le_refl _)
      refine ⟨fun d hd => ?_, hleads.imp fun _ => .rep⟩
      obtain ⟨ds, hds, rfl⟩ := Option.map_eq_some_iff.1 hd
      exact hsplits ds hds
  | ahead body =>
      have hbody : lib.Knows (r.sibling body) := htargets _ List.mem_cons_self
      have hleads := h.test hbody hs
      rw [perform_ahead_fst]
      refine ⟨fun d hd => ?_, hleads.imp fun _ => .ahead⟩
      obtain ⟨_, _, rfl⟩ := Option.map_eq_some_iff.1 hd
      exact Splits.zero _
  | notAhead body =>
      have hbody : lib.Knows (r.sibling body) := htargets _ List.mem_cons_self
      have hleads := h.test hbody hs
      refine ⟨fun d hd => ?_, hleads.imp fun _ => .notAhead⟩
      rw [perform_notAhead_fst, Option.mem_def] at hd
      split at hd
      · cases hd
      · cases hd
        exact Splits.zero _
  | upTo stop =>
      have hstop : lib.Knows (r.sibling stop) := htargets _ List.mem_cons_self
      obtain ⟨m, hm, hsplits, hleads⟩ := h.upTo hstop 0 hs rfl
      rw [Nat.zero_add] at hm
      have hplace : s.place.IsIn
          (exec.upTo (r.sibling stop) s.place.rest 0 s).2.cursor.source := by
        rw [(h.forward.upTo _ _ _ _).source]
        exact hs.place
      rw [perform_upTo_fst hm]
      refine ⟨fun d hd => ?_, (hleads.moveTo hplace).imp fun _ => .upTo⟩
      rw [Option.mem_def] at hd
      split at hd
      · cases hd
        exact hsplits
      · cases hd
  | ref name target =>
      obtain ⟨hsplits, hleads⟩ := h.wrap r (htargets target List.mem_cons_self) hs
      exact ⟨hsplits, hleads.imp fun _ => .ref⟩
  | inherited name target =>
      obtain ⟨hsplits, hleads⟩ := h.wrap r (htargets target List.mem_cons_self) hs
      exact ⟨hsplits, hleads.imp fun _ => .inherited⟩
  | label body =>
      obtain ⟨hsplits, hleads⟩ := h.wrap r (htargets (r.sibling body) List.mem_cons_self) hs
      exact ⟨hsplits, hleads.imp fun _ => .label⟩

theorem follows_of_refused {r : RuleRef} {s t : State} (ht : lib.Ready t)
    (hplace : t.place = s.place) (hreached : t.cursor.reachedLimit = true) :
    lib.Follows n r s (none, t) where
  splits d hd := by cases hd
  place := hplace
  leads := ⟨ht, fun hfalse => by rw [hreached] at hfalse; cases hfalse⟩

theorem follows_of_performed {r : RuleRef} {rule : Rule RuleRef} (hrule : lib.rule? r = some rule)
    {s t : State} {outcome : Option Derivation} (hs : lib.Ready s)
    (hsource : t.cursor.source = s.cursor.source)
    (hsplits : ∀ d ∈ outcome, Splits d.length s.place.rest)
    (hleads : lib.Leads n s.spendCall.enter t
      (Judgement.Performed lib.Yields rule.kind r s.place outcome)) :
    lib.Follows (n + 1) r s (t.leave.settle s.place outcome) := by
  have hready : lib.Ready t.leave := hleads.ready.change_cursor rfl rfl rfl rfl
  have hplace : s.place.IsIn t.leave.cursor.source := by
    change s.place.IsIn t.cursor.source
    rw [hsource]
    exact hs.place
  refine ⟨?_, ?_, ?_, fun hreached => ?_⟩
  · rw [State.settle_fst]
    exact hsplits
  · rw [State.settle_fst, State.settle_place]
  · cases outcome with
    | none => exact hready.moveTo hplace
    | some d => exact hready.advanceTo (hplace.advance (hsplits d rfl))
  · rw [State.reachedLimit_settle] at hreached
    obtain ⟨e, he, hspends⟩ := hleads.means hreached
    rw [State.settle_fst]
    refine ⟨e.around s.place outcome, .intro hrule he, ?_, fun hmemo => ?_, fun hmemo => ?_⟩
    · have hfurthest : t.cursor.furthest = max s.cursor.furthest e.reach := hspends.furthest
      cases outcome with
      | none => exact hfurthest
      | some d =>
          change max t.cursor.furthest (s.place.offset + d.length) = _
          rw [hfurthest, Nat.max_assoc]
          rfl
    · have hmade : t.cursor.calls.made = s.cursor.calls.made + 1 + e.calls := hspends.made hmemo
      rw [State.settle_calls]
      change t.cursor.calls.made = _
      rw [hmade]
      simp only [Extent.around]
      omega
    · exact Nat.succ_le_succ (hspends.height hmemo)

theorem limited_none : (Exec.limited lib none).Sound lib 0 where
  forward := Forward.limited fun _ h => by cases h
  follows r s _ hs := by
    cases hcalls : s.cursor.calls.isSpent with
    | true =>
        rw [Exec.limited_of_isSpent none hcalls]
        exact follows_of_refused (hs.change_cursor rfl rfl rfl rfl) rfl
          (State.reachedLimit_refuseCall s)
    | false =>
        rw [Exec.limited_none hcalls]
        exact follows_of_refused (hs.change_cursor rfl rfl rfl rfl) rfl
          (State.reachedLimit_refuseNesting _)

theorem limited_some (h : exec.Sound lib n) (hclosed : lib.Closed) :
    (Exec.limited lib (some exec)).Sound lib (n + 1) where
  forward := Forward.limited fun _ hexec => by cases hexec; exact h.forward
  follows r s hr hs := by
    obtain ⟨rule, hrule⟩ := Option.isSome_iff_exists.1 hr
    cases hcalls : s.cursor.calls.isSpent with
    | true =>
        rw [Exec.limited_of_isSpent (some exec) hcalls]
        exact follows_of_refused (hs.change_cursor rfl rfl rfl rfl) rfl
          (State.reachedLimit_refuseCall s)
    | false =>
        cases hnesting : s.cursor.nesting.exceeded with
        | true =>
            rw [Exec.limited_of_exceeded hcalls hnesting]
            exact follows_of_refused (hs.change_cursor rfl rfl rfl rfl) rfl
              (State.reachedLimit_refuseNesting _)
        | false =>
            rw [Exec.limited_of_rule hcalls hnesting hrule]
            have hstart : lib.Ready s.spendCall.enter := hs.change_cursor rfl rfl rfl rfl
            obtain ⟨hsplits, hleads⟩ := h.perform (hclosed.targets r rule hrule) hstart
            have hlater := h.forward.perform r s.spendCall.enter rule.kind
            exact follows_of_performed hrule hs hlater.source hsplits hleads

theorem holds_of_recorded {r : RuleRef} {s : State} {memo : Memo} {outcome : Option Derivation}
    (hs : lib.Ready s) (hmemo : s.memo = some memo)
    (hhit : memo.outcome? r s.place.offset = some outcome) :
    ∃ e, lib.Yields r s.place outcome e ∧ e.reach ≤ s.cursor.furthest := by
  obtain ⟨p, e, hp, hoffset, hyields, hreach⟩ := hs.memo memo hmemo r _ outcome hhit
  obtain rfl := hp.eq_of_offset_eq hs.place hoffset
  exact ⟨e, hyields, hreach⟩

theorem follows_of_failure_hit {r : RuleRef} {s : State} {memo : Memo} (hs : lib.Ready s)
    (hmemo : s.memo = some memo) (hhit : memo.outcome? r s.place.offset = some none) :
    lib.Follows n r s (none, s.countFailureHit) := by
  obtain ⟨e, he, hreach⟩ := holds_of_recorded hs hmemo hhit
  have hspends : s.Spends n s.countFailureHit e := .of_memo hmemo (Nat.max_eq_left hreach).symm
  refine ⟨fun d hd => ?_, rfl, hs.countFailureHit, fun _ => ⟨e, he, hspends⟩⟩
  cases hd

theorem follows_of_hit {r : RuleRef} {s : State} {memo : Memo} {d : Derivation}
    (hs : lib.Ready s) (hmemo : s.memo = some memo)
    (hhit : memo.outcome? r s.place.offset = some (some d)) :
    lib.Follows n r s
      (some d, (s.noteReplay r s.place.offset).advanceTo (s.place.advance d.length)) := by
  obtain ⟨e, he, hreach⟩ := holds_of_recorded hs hmemo hhit
  have hsplits := Library.Yields.covers he
  have hend : s.place.offset + d.length ≤ e.reach := he.end_le_reach
  have hready := (hs.noteReplay r s.place.offset).advanceTo (hs.place.advance hsplits)
  have hspends : s.Spends n
      ((s.noteReplay r s.place.offset).advanceTo (s.place.advance d.length)) e := by
    refine .of_memo hmemo ?_
    change max s.cursor.furthest (s.place.offset + d.length) = _
    omega
  refine ⟨fun d' hd' => ?_, rfl, hready, fun _ => ⟨e, he, hspends⟩⟩
  cases hd'
  exact hsplits

/-- What a run found may be recorded unless a limit was exceeded, for only then does it hold. -/
theorem follows_of_miss {r : RuleRef} {s t : State} {memo : Memo} {outcome : Option Derivation}
    (hs : lib.Ready s) (hmemo : s.memo = some memo)
    (hsource : t.cursor.source = s.cursor.source)
    (hfollows : lib.Follows n r s.countMiss (outcome, t)) :
    lib.Follows n r s (outcome, t.learn r s.place.offset outcome) := by
  cases hreached : t.cursor.reachedLimit with
  | true =>
      rw [State.learn_of_reachedLimit _ _ _ hreached]
      refine ⟨hfollows.splits, hfollows.place, hfollows.leads.ready, fun hfalse => ?_⟩
      rw [hreached] at hfalse
      cases hfalse
  | false =>
      rw [State.learn_of_unlimited _ _ _ hreached]
      obtain ⟨e, he, hspends⟩ := hfollows.leads.means hreached
      have hfurthest : t.cursor.furthest = max s.cursor.furthest e.reach := hspends.furthest
      have hplace : s.place.IsIn t.cursor.source := by
        rw [hsource]
        exact hs.place
      have hreach : e.reach ≤ t.cursor.furthest := by
        rw [hfurthest]
        exact Nat.le_max_right _ _
      have hready := hfollows.leads.ready.remember ⟨s.place, e, hplace, rfl, he, hreach⟩
      exact ⟨hfollows.splits, hfollows.place, hready, fun _ => ⟨e, he, .of_memo hmemo hfurthest⟩⟩

theorem memoized (h : exec.Sound lib n) : (Exec.memoized exec).Sound lib n where
  forward := h.forward.memoized
  follows r s hr hs := by
    cases hmemo : s.memo with
    | none =>
        rw [Exec.memoized_of_none hmemo]
        exact h.follows r s hr hs
    | some memo =>
        rcases hhit : memo.outcome? r s.place.offset with _ | _ | d
        · rw [Exec.memoized_of_miss hmemo hhit]
          have hsource : (exec r s.countMiss).2.cursor.source = s.cursor.source :=
            (h.forward r s.countMiss).source
          exact follows_of_miss hs hmemo hsource (h.follows r s.countMiss hr hs.countMiss)
        · rw [Exec.memoized_of_failure_hit hmemo hhit]
          exact follows_of_failure_hit hs hmemo hhit
        · rw [Exec.memoized_of_hit hmemo hhit]
          exact follows_of_hit hs hmemo hhit

end Sound

end Exec

/-- Every run of a rule of the library finds what holds unless it exceeds a limit. -/
theorem Library.exec_sound {lib : Library} (h : lib.Closed) (room : Nat) :
    (lib.exec room).Sound lib room := by
  induction room with
  | zero => exact Exec.Sound.limited_none.memoized
  | succ room ih => exact (ih.limited_some h).memoized

end Peg
