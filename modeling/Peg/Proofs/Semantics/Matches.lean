import Peg.Proofs.Semantics.Derives
import Peg.Proofs.Semantics.Soundness

/-!
# The matches of all runs

Whatever the limits are and whether or not they were exceeded before, a match that a run finds has a
well-formed derivation, and the furthest offset stays within the text. A refused execution counts as
a failure here, which says nothing about the rule, so the runs go by a judgement that allows every
failure. Main statement: `Library.exec_deriving`.
-/

namespace Peg

theorem Place.IsIn.offset_le {p : Place} {text : List Char} (h : p.IsIn text) :
    p.offset ≤ byteLength text := by
  obtain ⟨before, rfl, hoffset⟩ := h
  rw [byteLength_append]
  omega

namespace Library

/-- The cursor is at a place of the text and has not been beyond the text, and the memo says nothing
wrong about it. -/
structure Inside (lib : Library) (s : State) : Prop where
  ready : lib.Ready s
  furthest : s.cursor.furthest ≤ byteLength s.cursor.source

/-- Matches are derivations of the rule, and every failure will do. -/
def Allows (lib : Library) : Judgement := fun r p outcome _ => ∀ d ∈ outcome, lib.Derives r p d

variable {lib : Library}

theorem allows_none {r : RuleRef} {p : Place} : lib.Allows r p none .zero := by
  intro d hd
  cases hd

theorem allows_grants : Judgement.Grants lib.Allows lib.Derives := fun _ _ d _ h => h d rfl

theorem inside_start {cursor : Cursor} (hplace : cursor.place.IsIn cursor.source)
    (hfurthest : cursor.furthest ≤ byteLength cursor.source) (memoize : Bool) :
    lib.Inside (.start cursor memoize) :=
  ⟨ready_start hplace memoize, hfurthest⟩

namespace Inside

variable {s : State}

theorem moveTo (h : lib.Inside s) {p : Place} (hp : p.IsIn s.cursor.source) :
    lib.Inside (s.moveTo p) :=
  ⟨h.ready.moveTo hp, h.furthest⟩

theorem advanceTo (h : lib.Inside s) {p : Place} (hp : p.IsIn s.cursor.source) :
    lib.Inside (s.advanceTo p) :=
  ⟨h.ready.advanceTo hp, Nat.max_le.2 ⟨h.furthest, hp.offset_le⟩⟩

theorem replay (h : lib.Inside s) {r : RuleRef} {n : Nat} (hn : Splits n s.place.rest) :
    lib.Inside ((s.noteReplay r s.place.offset).advanceTo (s.place.advance n)) :=
  advanceTo (s := s.noteReplay r s.place.offset) ⟨h.ready.noteReplay r _, h.furthest⟩
    (h.ready.place.advance hn)

end Inside

end Library

namespace Exec

/-- Runs of rules of the library find matches that have derivations and stay inside the text. -/
structure Deriving (lib : Library) (n : Nat) (exec : Exec) : Prop where
  sound : exec.Sound lib n
  finds : ∀ r s, lib.Knows r → lib.Inside s →
    lib.Inside (exec r s).2 ∧ ∀ d ∈ (exec r s).1, lib.Derives r s.place d

namespace Deriving

variable {lib : Library} {n : Nat} {exec : Exec} {r : RuleRef} {s : State}

theorem inside (h : exec.Deriving lib n) (hr : lib.Knows r) (hs : lib.Inside s) :
    lib.Inside (exec r s).2 :=
  (h.finds r s hr hs).1

theorem allows (h : exec.Deriving lib n) (hr : lib.Knows r) (hs : lib.Inside s) :
    lib.Allows r s.place (exec r s).1 .zero :=
  (h.finds r s hr hs).2

/-! ## Loops -/

theorem test (h : exec.Deriving lib n) (hr : lib.Knows r) (hs : lib.Inside s) :
    lib.Inside (exec.test r s).2 := by
  refine (h.inside hr hs).moveTo ?_
  rw [(h.sound.forward r s).source]
  exact hs.ready.place

theorem all (h : exec.Deriving lib n) {rs : List RuleRef} (hrs : ∀ r ∈ rs, lib.Knows r)
    (hs : lib.Inside s) :
    lib.Inside (exec.all rs s).2 ∧
      ∃ e, Judgement.All lib.Allows rs s.place (exec.all rs s).1 e := by
  induction rs generalizing s with
  | nil => exact ⟨hs, .zero, .nil⟩
  | cons r rs ih =>
      obtain ⟨hr, hrest⟩ := List.forall_mem_cons.1 hrs
      have hfound := h.allows hr hs
      have hinside := h.inside hr hs
      cases hout : (exec r s).1 with
      | none =>
          rw [Exec.all_cons_none rs hout]
          exact ⟨hinside, .zero, .fail Library.allows_none⟩
      | some d =>
          obtain ⟨hend, e, hall⟩ := ih hrest hinside
          rw [(h.sound.follows r s hr hs.ready).place_of_some hout] at hall
          rw [hout] at hfound
          rw [Exec.all_cons_some rs hout]
          exact ⟨hend, _, .cons hfound hall⟩

theorem firstOf (h : exec.Deriving lib n) {rs : List RuleRef} (hrs : ∀ r ∈ rs, lib.Knows r)
    (hs : lib.Inside s) :
    lib.Inside (exec.firstOf rs s).2 ∧
      ∃ e, Judgement.First lib.Allows rs s.place (exec.firstOf rs s).1 e := by
  induction rs generalizing s with
  | nil => exact ⟨hs, .zero, .nil⟩
  | cons r rs ih =>
      obtain ⟨hr, hrest⟩ := List.forall_mem_cons.1 hrs
      have hfound := h.allows hr hs
      have hinside := h.inside hr hs
      cases hout : (exec r s).1 with
      | none =>
          obtain ⟨hend, e, hfirst⟩ := ih hrest hinside
          rw [(h.sound.follows r s hr hs.ready).place_of_none hout] at hfirst
          rw [Exec.firstOf_cons_none rs hout]
          exact ⟨hend, _, .next Library.allows_none hfirst⟩
      | some d =>
          rw [hout] at hfound
          rw [Exec.firstOf_cons_some rs hout]
          exact ⟨hinside, .zero, .found hfound⟩

/-- As in `Sound.repeated` the rounds do not run out of unread characters. -/
theorem repeated (h : exec.Deriving lib n) (hr : lib.Knows r) (least : Nat) (most : Option Nat)
    (unread : List Char) (count : Nat) {s : State} (hs : lib.Inside s)
    (hunread : s.place.rest.length ≤ unread.length) :
    lib.Inside (exec.repeated r least most unread count [] s).2 ∧
      ∃ e, Judgement.Repeated lib.Allows count r least most s.place
        (exec.repeated r least most unread count [] s).1 e := by
  by_cases hmost : most = some count
  · rw [Exec.repeated_full unread [] hmost]
    exact ⟨hs, .zero, .full hmost⟩
  have hfollows := h.sound.follows r s hr hs.ready
  have hfound := h.allows hr hs
  have hinside := h.inside hr hs
  cases hout : (exec r s).1 with
  | none =>
      rw [Exec.repeated_none unread [] hmost hout]
      exact ⟨hinside, .zero, .stop hmost Library.allows_none⟩
  | some d =>
      rw [hout] at hfound
      by_cases hlen : d.length = 0
      · rw [Exec.repeated_empty unread [] hmost hout hlen]
        exact ⟨hinside, .zero, .empty hmost hfound hlen⟩
      · obtain ⟨c, rest, rfl, hrest⟩ := (hfollows.splits d hout).exists_cons hlen hunread
        have hplace := hfollows.place_of_some hout
        rw [← hplace] at hrest
        obtain ⟨hend, e, hrepeated⟩ := repeated h hr least most rest (count + 1) hinside hrest
        rw [hplace] at hrepeated
        rw [Exec.repeated_more c rest hmost hout hlen]
        exact ⟨hend, _, .more hmost hfound hlen hrepeated⟩
termination_by unread.length

theorem upTo (h : exec.Deriving lib n) {stop : RuleRef} (hstop : lib.Knows stop)
    {rest : List Char} (passed : Nat) {s : State} (hs : lib.Inside s) (hrest : s.place.rest = rest) :
    lib.Inside (exec.upTo stop rest passed s).2 ∧
      ∃ m e, (exec.upTo stop rest passed s).1 = passed + m ∧
        Judgement.UpTo lib.Allows s.place stop m e := by
  have hfound := h.allows hstop hs
  have hinside := h.test hstop hs
  cases hout : (exec stop s).1 with
  | some d =>
      rw [hout] at hfound
      rw [Exec.upTo_found rest passed hout]
      exact ⟨hinside, 0, .zero, rfl, .found hfound⟩
  | none =>
      cases rest with
      | nil =>
          rw [Exec.upTo_nil passed hout]
          exact ⟨hinside, 0, .zero, rfl, .ended Library.allows_none hrest⟩
      | cons c rest =>
          have hpast : (s.place.past c rest).IsIn (exec.test stop s).2.cursor.source := by
            rw [(h.sound.forward.test stop s).source]
            exact hs.ready.place.past hrest
          obtain ⟨hend, m, e, hm, hupTo⟩ :=
            upTo h hstop (passed + c.utf8Size) (hinside.moveTo hpast) rfl
          rw [Exec.upTo_cons c rest passed hout]
          refine ⟨hend, c.utf8Size + m, _, ?_, .past Library.allows_none hrest hupTo⟩
          rw [← Nat.add_assoc]
          exact hm

/-! ## Executions -/

theorem performed (h : exec.Deriving lib n) {kind : Kind RuleRef}
    (htargets : ∀ t ∈ kind.targets r, lib.Knows t) (hs : lib.Inside s) :
    lib.Inside (exec.perform r s kind).2 ∧
      ∃ e, Judgement.Performed lib.Allows kind r s.place (exec.perform r s kind).1 e := by
  cases kind with
  | terminal matcher => exact ⟨hs, .zero, .terminal⟩
  | text literal ignoreCase => exact ⟨hs, .zero, .text⟩
  | sequence parts =>
      have hparts : ∀ part ∈ parts.map r.sibling, lib.Knows part :=
        fun part hpart => htargets part (List.mem_append_left _ hpart)
      obtain ⟨hend, e, hall⟩ := h.all hparts hs
      exact ⟨hend, e, .sequence hall⟩
  | choice options =>
      have hoptions : ∀ option ∈ options.map r.sibling, lib.Knows option :=
        fun option hoption => htargets option (List.mem_append_left _ hoption)
      obtain ⟨hend, e, hfirst⟩ := h.firstOf hoptions hs
      exact ⟨hend, e, .choice hfirst⟩
  | rep body least most =>
      have hbody : lib.Knows (r.sibling body) := htargets _ List.mem_cons_self
      obtain ⟨hend, e, hrepeated⟩ := h.repeated hbody least most s.place.rest 0 hs (Nat.le_refl _)
      exact ⟨hend, e, .rep hrepeated⟩
  | ahead body =>
      have hbody : lib.Knows (r.sibling body) := htargets _ List.mem_cons_self
      rw [perform_ahead_fst]
      exact ⟨h.test hbody hs, .zero, .ahead (h.allows hbody hs)⟩
  | notAhead body =>
      have hbody : lib.Knows (r.sibling body) := htargets _ List.mem_cons_self
      exact ⟨h.test hbody hs, .zero, .notAhead (h.allows hbody hs)⟩
  | upTo stop =>
      have hstop : lib.Knows (r.sibling stop) := htargets _ List.mem_cons_self
      obtain ⟨hend, m, e, hm, hupTo⟩ := h.upTo hstop 0 hs rfl
      rw [Nat.zero_add] at hm
      have hplace : s.place.IsIn
          (exec.upTo (r.sibling stop) s.place.rest 0 s).2.cursor.source := by
        rw [(h.sound.forward.upTo _ _ _ _).source]
        exact hs.ready.place
      rw [perform_upTo_fst hm]
      exact ⟨hend.moveTo hplace, e, .upTo hupTo⟩
  | ref name target =>
      have htarget : lib.Knows target := htargets target List.mem_cons_self
      exact ⟨h.inside htarget hs, .zero, .ref (h.allows htarget hs)⟩
  | inherited name target =>
      have htarget : lib.Knows target := htargets target List.mem_cons_self
      exact ⟨h.inside htarget hs, .zero, .inherited (h.allows htarget hs)⟩
  | label body =>
      have hbody : lib.Knows (r.sibling body) := htargets (r.sibling body) List.mem_cons_self
      exact ⟨h.inside hbody hs, .zero, .label (h.allows hbody hs)⟩

theorem finds_of_refused {s t : State} (hs : lib.Inside s) (hplace : t.place = s.place)
    (hsource : t.cursor.source = s.cursor.source)
    (hfurthest : t.cursor.furthest = s.cursor.furthest) (hmemo : t.memo = s.memo) :
    lib.Inside t ∧ ∀ d ∈ (none : Option Derivation), lib.Derives r s.place d := by
  refine ⟨⟨hs.ready.change_cursor hplace hsource hfurthest hmemo, ?_⟩, fun d hd => ?_⟩
  · rw [hfurthest, hsource]
    exact hs.furthest
  · cases hd

theorem limited_none : (Exec.limited lib none).Deriving lib 0 where
  sound := Sound.limited_none
  finds r s _ hs := by
    cases hcalls : s.cursor.calls.isSpent with
    | true =>
        rw [Exec.limited_of_isSpent none hcalls]
        exact finds_of_refused hs rfl rfl rfl rfl
    | false =>
        rw [Exec.limited_none hcalls]
        exact finds_of_refused hs rfl rfl rfl rfl

theorem finds_of_performed {rule : Rule RuleRef} (hrule : lib.rule? r = some rule) {s t : State}
    {outcome : Option Derivation} {e : Extent} (hs : lib.Inside s) (ht : lib.Inside t)
    (hsource : t.cursor.source = s.cursor.source)
    (hperformed : Judgement.Performed lib.Allows rule.kind r s.place outcome e) :
    lib.Inside (t.leave.settle s.place outcome).2 ∧
      ∀ d ∈ (t.leave.settle s.place outcome).1, lib.Derives r s.place d := by
  have hderives : ∀ d ∈ outcome, lib.Derives r s.place d := fun d hd =>
    .intro hrule (hperformed.formed Library.allows_grants d hd)
  have hleave : lib.Inside t.leave := ⟨ht.ready.change_cursor rfl rfl rfl rfl, ht.furthest⟩
  have hback : s.place.IsIn t.leave.cursor.source := by
    change s.place.IsIn t.cursor.source
    rw [hsource]
    exact hs.ready.place
  rw [State.settle_fst]
  refine ⟨?_, hderives⟩
  cases outcome with
  | none => exact hleave.moveTo hback
  | some d => exact hleave.advanceTo (hback.advance (hderives d rfl).covers)

theorem limited_some (h : exec.Deriving lib n) (hclosed : lib.Closed) :
    (Exec.limited lib (some exec)).Deriving lib (n + 1) where
  sound := h.sound.limited_some hclosed
  finds r s hr hs := by
    obtain ⟨rule, hrule⟩ := Option.isSome_iff_exists.1 hr
    cases hcalls : s.cursor.calls.isSpent with
    | true =>
        rw [Exec.limited_of_isSpent (some exec) hcalls]
        exact finds_of_refused hs rfl rfl rfl rfl
    | false =>
        cases hnesting : s.cursor.nesting.exceeded with
        | true =>
            rw [Exec.limited_of_exceeded hcalls hnesting]
            exact finds_of_refused hs rfl rfl rfl rfl
        | false =>
            rw [Exec.limited_of_rule hcalls hnesting hrule]
            have hstart : lib.Inside s.spendCall.enter :=
              ⟨hs.ready.change_cursor rfl rfl rfl rfl, hs.furthest⟩
            obtain ⟨hend, e, hperformed⟩ := h.performed (hclosed.targets r rule hrule) hstart
            have hlater := h.sound.forward.perform r s.spendCall.enter rule.kind
            exact finds_of_performed hrule hs hend hlater.source hperformed

theorem memoized (h : exec.Deriving lib n) : (Exec.memoized exec).Deriving lib n where
  sound := h.sound.memoized
  finds r s hr hs := by
    have hready := ((h.sound.memoized).follows r s hr hs.ready).leads.ready
    cases hmemo : s.memo with
    | none =>
        rw [Exec.memoized_of_none hmemo]
        exact h.finds r s hr hs
    | some memo =>
        rcases hhit : memo.outcome? r s.place.offset with _ | _ | d
        · have hmiss : lib.Inside s.countMiss := ⟨hs.ready.countMiss, hs.furthest⟩
          obtain ⟨hend, hderives⟩ := h.finds r s.countMiss hr hmiss
          rw [Exec.memoized_of_miss hmemo hhit] at hready ⊢
          refine ⟨⟨hready, ?_⟩, hderives⟩
          rw [State.learn_cursor]
          exact hend.furthest
        · rw [Exec.memoized_of_failure_hit hmemo hhit]
          refine ⟨⟨hs.ready.countFailureHit, hs.furthest⟩, fun d hd => ?_⟩
          cases hd
        · obtain ⟨e, hyields, -⟩ := Sound.holds_of_recorded hs.ready hmemo hhit
          rw [Exec.memoized_of_hit hmemo hhit]
          refine ⟨hs.replay hyields.covers, fun d' hd' => ?_⟩
          cases hd'
          exact hyields.derives

end Deriving

end Exec

/-- Every run of a rule of the library, whatever the limits and the memo are, finds matches that
have derivations and stays inside the text. -/
theorem Library.exec_deriving {lib : Library} (h : lib.Closed) (room : Nat) :
    (lib.exec room).Deriving lib room := by
  induction room with
  | zero => exact Exec.Deriving.limited_none.memoized
  | succ room ih => exact (ih.limited_some h).memoized

end Peg
