import Peg.Proofs.Engine.Later
import Peg.Proofs.Grammar.Built

/-!
# The same run under other limits

Two runs that begin in the same way but under different limits go the same way until one of them
is refused something. If it is the second one, it exceeded its call limit and the first one has
made more calls than this limit allows, or the first one has nested deeper than the second one
may. The first run itself may still go on in any way then. `Library.run_lockstep` states this for
whole runs, with or without a memo.
-/

namespace Peg

namespace State

def withLimits (s : State) (calls : Option Nat) (depth : Nat) : State :=
  { s with
    cursor :=
      { s.cursor with
        calls := { s.cursor.calls with limit := calls }
        nesting := { s.cursor.nesting with limit := depth } } }

/-- No limit was exceeded, and the other limits would have allowed what was done as well. -/
structure Fits (calls : Option Nat) (depth : Nat) (s : State) : Prop where
  unlimited : s.cursor.reachedLimit = false
  made : ∀ limit ∈ calls, s.cursor.calls.made ≤ limit
  deepest : s.cursor.nesting.deepest ≤ depth

/-- Something was refused on the way to `s` or, because of the other limits, on the way to `t`. -/
inductive Diverged (calls : Option Nat) (depth : Nat) (s t : State) : Prop
  | first : s.cursor.reachedLimit = true → Diverged calls depth s t
  | calls {limit : Nat} : limit ∈ calls → limit < s.cursor.calls.made →
      t.cursor.calls.exceeded = true → Diverged calls depth s t
  | nesting : depth < s.cursor.nesting.deepest → t.cursor.reachedLimit = true →
      Diverged calls depth s t

variable {calls : Option Nat} {depth : Nat} {s t : State}

theorem Later.exceeded {s t : State} (h : s.Later t) (hs : s.cursor.calls.exceeded = true) :
    t.cursor.calls.exceeded = true := by
  have hrefused := h.callsRefused
  simp only [CallBudget.exceeded, bne_iff_ne] at hs ⊢
  omega

theorem Diverged.later {s' t' : State} (h : Diverged calls depth s t) (hs : s.Later s')
    (ht : t.Later t') : Diverged calls depth s' t' := by
  cases h with
  | first hreached => exact .first (hs.reachedLimit hreached)
  | calls hlimit hlt hexceeded =>
      exact .calls hlimit (Nat.lt_of_lt_of_le hlt hs.made) (ht.exceeded hexceeded)
  | nesting hlt hreached =>
      exact .nesting (Nat.lt_of_lt_of_le hlt hs.deepest) (ht.reachedLimit hreached)

theorem Diverged.settle (h : Diverged calls depth s t) (p p' : Place)
    (outcome outcome' : Option Derivation) :
    Diverged calls depth (s.leave.settle p outcome).2 (t.leave.settle p' outcome').2 := by
  cases h with
  | first hreached =>
      refine .first ?_
      rw [reachedLimit_settle]
      exact hreached
  | calls hlimit hlt hexceeded =>
      refine .calls hlimit ?_ ?_
      · rw [settle_calls]
        exact hlt
      · rw [settle_calls]
        exact hexceeded
  | nesting hlt hreached =>
      refine .nesting ?_ ?_
      · rw [settle_nesting]
        exact hlt
      · rw [reachedLimit_settle]
        exact hreached

theorem Fits.settle (h : s.Fits calls depth) (p : Place) (outcome : Option Derivation) :
    (s.leave.settle p outcome).2.Fits calls depth where
  unlimited := by
    rw [reachedLimit_settle]
    exact h.unlimited
  made := by
    rw [settle_calls]
    exact h.made
  deepest := by
    rw [settle_nesting]
    exact h.deepest

theorem settle_withLimits (s : State) (p : Place) (outcome : Option Derivation) :
    (s.withLimits calls depth).leave.settle p outcome =
      (outcome, (s.leave.settle p outcome).2.withLimits calls depth) := by
  cases outcome <;> rfl

end State

/-- The results of a run and of one under other limits: the same, or something was refused. -/
def Alike (calls : Option Nat) (depth : Nat) {α : Type} (x y : α × State) : Prop :=
  (y = (x.1, x.2.withLimits calls depth) ∧ x.2.Fits calls depth) ∨
    State.Diverged calls depth x.2 y.2

theorem Alike.map {calls : Option Nat} {depth : Nat} {α β : Type} {x y : α × State}
    (h : Alike calls depth x y) (f : α → β) : Alike calls depth (f x.1, x.2) (f y.1, y.2) := by
  rcases h with ⟨rfl, hfits⟩ | hdiverged
  · exact .inl ⟨rfl, hfits⟩
  · exact .inr hdiverged

theorem Alike.moveTo {calls : Option Nat} {depth : Nat} {α β : Type} {x y : α × State}
    (h : Alike calls depth x y) (f : α → β) (p : Place) :
    Alike calls depth (f x.1, x.2.moveTo p) (f y.1, y.2.moveTo p) := by
  rcases h with ⟨rfl, hfits⟩ | hdiverged
  · exact .inl ⟨rfl, hfits.unlimited, hfits.made, hfits.deepest⟩
  · exact .inr (hdiverged.later (State.later_moveTo _ _) (State.later_moveTo _ _))

namespace Exec

/-- Two ways of running rules of the library `k` deep, of which the second runs them as the first
does but under other limits. -/
structure Lockstep (lib : Library) (calls : Option Nat) (depth k : Nat) (exec exec' : Exec) :
    Prop where
  forward : exec.Forward
  forward' : exec'.Forward
  alike : ∀ r s, lib.Knows r → s.cursor.nesting.depth = k → s.Fits calls depth →
    Alike calls depth (exec r s) (exec' r (s.withLimits calls depth))

namespace Lockstep

variable {lib : Library} {calls : Option Nat} {depth k : Nat} {exec exec' : Exec}

/-! ## Loops -/

theorem test (h : Lockstep lib calls depth k exec exec') {r : RuleRef} (hr : lib.Knows r)
    {s : State} (hk : s.cursor.nesting.depth = k) (hfits : s.Fits calls depth) :
    Alike calls depth (exec.test r s) (exec'.test r (s.withLimits calls depth)) :=
  (h.alike r s hr hk hfits).moveTo Option.isSome s.place

theorem all (h : Lockstep lib calls depth k exec exec') {rs : List RuleRef}
    (hrs : ∀ r ∈ rs, lib.Knows r) {s : State} (hk : s.cursor.nesting.depth = k)
    (hfits : s.Fits calls depth) :
    Alike calls depth (exec.all rs s) (exec'.all rs (s.withLimits calls depth)) := by
  induction rs generalizing s with
  | nil => exact .inl ⟨rfl, hfits⟩
  | cons r rs ih =>
      obtain ⟨hr, hrest⟩ := List.forall_mem_cons.1 hrs
      rcases h.alike r s hr hk hfits with ⟨heq, hfits'⟩ | hdiverged
      · have hsame : (exec' r (s.withLimits calls depth)).1 = (exec r s).1 := by rw [heq]
        cases hout : (exec r s).1 with
        | none =>
            rw [Exec.all_cons_none rs hout, Exec.all_cons_none rs (hsame.trans hout), heq]
            exact .inl ⟨rfl, hfits'⟩
        | some d =>
            have hk' := (h.forward r s).depth.trans hk
            rw [Exec.all_cons_some rs hout, Exec.all_cons_some rs (hsame.trans hout), heq]
            exact (ih hrest hk' hfits').map _
      · exact .inr (hdiverged.later (Forward.all_head (h.forward.all rs) r s)
          (Forward.all_head (h.forward'.all rs) r _))

theorem firstOf (h : Lockstep lib calls depth k exec exec') {rs : List RuleRef}
    (hrs : ∀ r ∈ rs, lib.Knows r) {s : State} (hk : s.cursor.nesting.depth = k)
    (hfits : s.Fits calls depth) :
    Alike calls depth (exec.firstOf rs s) (exec'.firstOf rs (s.withLimits calls depth)) := by
  induction rs generalizing s with
  | nil => exact .inl ⟨rfl, hfits⟩
  | cons r rs ih =>
      obtain ⟨hr, hrest⟩ := List.forall_mem_cons.1 hrs
      rcases h.alike r s hr hk hfits with ⟨heq, hfits'⟩ | hdiverged
      · have hsame : (exec' r (s.withLimits calls depth)).1 = (exec r s).1 := by rw [heq]
        cases hout : (exec r s).1 with
        | none =>
            have hk' := (h.forward r s).depth.trans hk
            rw [Exec.firstOf_cons_none rs hout, Exec.firstOf_cons_none rs (hsame.trans hout), heq]
            exact ih hrest hk' hfits'
        | some d =>
            rw [Exec.firstOf_cons_some rs hout, Exec.firstOf_cons_some rs (hsame.trans hout), heq]
            exact .inl ⟨rfl, hfits'⟩
      · exact .inr (hdiverged.later (Forward.firstOf_head (h.forward.firstOf rs) r s)
          (Forward.firstOf_head (h.forward'.firstOf rs) r _))

theorem repeated (h : Lockstep lib calls depth k exec exec') {r : RuleRef} (hr : lib.Knows r)
    (least : Nat) (most : Option Nat) (unread : List Char) (count : Nat) (done : List Derivation)
    {s : State} (hk : s.cursor.nesting.depth = k) (hfits : s.Fits calls depth) :
    Alike calls depth (exec.repeated r least most unread count done s)
      (exec'.repeated r least most unread count done (s.withLimits calls depth)) := by
  by_cases hmost : most = some count
  · rw [Exec.repeated_full unread done hmost, Exec.repeated_full unread done hmost]
    exact .inl ⟨rfl, hfits⟩
  rcases h.alike r s hr hk hfits with ⟨heq, hfits'⟩ | hdiverged
  · have hsame : (exec' r (s.withLimits calls depth)).1 = (exec r s).1 := by rw [heq]
    cases hout : (exec r s).1 with
    | none =>
        rw [Exec.repeated_none unread done hmost hout,
          Exec.repeated_none unread done hmost (hsame.trans hout), heq]
        exact .inl ⟨rfl, hfits'⟩
    | some d =>
        by_cases hlen : d.length = 0
        · rw [Exec.repeated_empty unread done hmost hout hlen,
            Exec.repeated_empty unread done hmost (hsame.trans hout) hlen, heq]
          exact .inl ⟨rfl, hfits'⟩
        cases unread with
        | nil =>
            rw [Exec.repeated_nil done hmost hout hlen,
              Exec.repeated_nil done hmost (hsame.trans hout) hlen, heq]
            exact .inl ⟨rfl, hfits'⟩
        | cons c unread =>
            have hk' := (h.forward r s).depth.trans hk
            rw [Exec.repeated_cons c unread done hmost hout hlen,
              Exec.repeated_cons c unread done hmost (hsame.trans hout) hlen, heq]
            exact repeated h hr least most unread _ _ hk' hfits'
  · exact .inr (hdiverged.later
      (Forward.repeated_head (fun _ rest _ => h.forward.repeated rest) hmost done s)
      (Forward.repeated_head (fun _ rest _ => h.forward'.repeated rest) hmost done _))

theorem upTo (h : Lockstep lib calls depth k exec exec') {stop : RuleRef} (hstop : lib.Knows stop)
    (rest : List Char) (passed : Nat) {s : State} (hk : s.cursor.nesting.depth = k)
    (hfits : s.Fits calls depth) :
    Alike calls depth (exec.upTo stop rest passed s)
      (exec'.upTo stop rest passed (s.withLimits calls depth)) := by
  rcases h.alike stop s hstop hk hfits with ⟨heq, hfits'⟩ | hdiverged
  · have hsame : (exec' stop (s.withLimits calls depth)).1 = (exec stop s).1 := by rw [heq]
    have htest : (exec'.test stop (s.withLimits calls depth)).2 =
        (exec.test stop s).2.withLimits calls depth := by
      rw [test_snd, heq]
      rfl
    have hmoved : ∀ p, ((exec.test stop s).2.moveTo p).Fits calls depth :=
      fun _ => ⟨hfits'.unlimited, hfits'.made, hfits'.deepest⟩
    cases hout : (exec stop s).1 with
    | some d =>
        rw [Exec.upTo_found rest passed hout, Exec.upTo_found rest passed (hsame.trans hout), htest]
        exact .inl ⟨rfl, hmoved s.place⟩
    | none =>
        cases rest with
        | nil =>
            rw [Exec.upTo_nil passed hout, Exec.upTo_nil passed (hsame.trans hout), htest]
            exact .inl ⟨rfl, hmoved s.place⟩
        | cons c rest =>
            have hk' := (h.forward stop s).depth.trans hk
            rw [Exec.upTo_cons c rest passed hout, Exec.upTo_cons c rest passed (hsame.trans hout),
              htest]
            exact upTo h hstop rest _ hk' (hmoved (s.place.past c rest))
  · exact .inr (hdiverged.later
      ((State.later_moveTo _ _).trans
        (Forward.upTo_head (fun _ later _ => h.forward.upTo stop later) passed s))
      ((State.later_moveTo _ _).trans
        (Forward.upTo_head (fun _ later _ => h.forward'.upTo stop later) passed _)))

/-! ## Executions -/

theorem perform (h : Lockstep lib calls depth k exec exec') {r : RuleRef} {kind : Kind RuleRef}
    (htargets : ∀ t ∈ kind.targets r, lib.Knows t) {s : State}
    (hk : s.cursor.nesting.depth = k) (hfits : s.Fits calls depth) :
    Alike calls depth (exec.perform r s kind)
      (exec'.perform r (s.withLimits calls depth) kind) := by
  cases kind with
  | terminal matcher | text literal ignoreCase => exact .inl ⟨rfl, hfits⟩
  | sequence parts =>
      have hparts : ∀ part ∈ parts.map r.sibling, lib.Knows part :=
        fun part hpart => htargets part (List.mem_append_left _ hpart)
      exact (h.all hparts hk hfits).map _
  | choice options =>
      have hoptions : ∀ option ∈ options.map r.sibling, lib.Knows option :=
        fun option hoption => htargets option (List.mem_append_left _ hoption)
      exact (h.firstOf hoptions hk hfits).map _
  | rep body least most =>
      have hbody : lib.Knows (r.sibling body) := htargets _ List.mem_cons_self
      exact (h.repeated hbody least most s.place.rest 0 [] hk hfits).map _
  | ahead body =>
      have hbody : lib.Knows (r.sibling body) := htargets _ List.mem_cons_self
      exact (h.test hbody hk hfits).map
        fun found => if found then some (Derivation.branch r 0 []) else none
  | notAhead body =>
      have hbody : lib.Knows (r.sibling body) := htargets _ List.mem_cons_self
      exact (h.test hbody hk hfits).map
        fun found => if found then none else some (Derivation.branch r 0 [])
  | upTo stop =>
      have hstop : lib.Knows (r.sibling stop) := htargets _ List.mem_cons_self
      exact (h.upTo hstop s.place.rest 0 hk hfits).moveTo
        (fun passed => if 0 < passed then some (Derivation.branch r passed []) else none) s.place
  | ref name target | inherited name target =>
      exact (h.alike target s (htargets target List.mem_cons_self) hk hfits).map _
  | label body =>
      exact (h.alike _ s (htargets (r.sibling body) List.mem_cons_self) hk hfits).map _

theorem alike_limited {inner inner' : Option Exec} (hinner : ∀ exec ∈ inner, exec.Forward)
    {r : RuleRef} {s : State}
    (hrun : s.cursor.calls.isSpent = false →
      (s.withLimits calls depth).cursor.calls.isSpent = false →
      Alike calls depth (Exec.limited lib inner r s)
        (Exec.limited lib inner' r (s.withLimits calls depth))) :
    Alike calls depth (Exec.limited lib inner r s)
      (Exec.limited lib inner' r (s.withLimits calls depth)) := by
  cases hspent : s.cursor.calls.isSpent with
  | true =>
      refine .inr (.first ?_)
      rw [Exec.limited_of_isSpent inner hspent]
      exact State.reachedLimit_refuseCall s
  | false =>
      cases hspent' : (s.withLimits calls depth).cursor.calls.isSpent with
      | true =>
          obtain ⟨limit, hlimit, hle⟩ := CallBudget.exists_le_of_isSpent hspent'
          have hlater : s.spendCall.Later (Exec.limited lib inner r s).2 :=
            Forward.limited_of_spent hinner hspent
          have hmade : s.cursor.calls.made + 1 ≤
              (Exec.limited lib inner r s).2.cursor.calls.made := hlater.made
          rw [Exec.limited_of_isSpent inner' hspent']
          refine .inr (.calls hlimit (Nat.lt_of_le_of_lt hle hmade) ?_)
          simp [State.refuseCall, CallBudget.refuse, CallBudget.exceeded]
      | false => exact hrun hspent hspent'

/-- The first run has no room for an execution, so a limit refuses it. -/
theorem limited_none {inner' : Option Exec} (hinner' : ∀ exec ∈ inner', exec.Forward) :
    Lockstep lib calls depth k (Exec.limited lib none) (Exec.limited lib inner') where
  forward := .limited fun _ h => by cases h
  forward' := .limited hinner'
  alike r s _ _ _ := by
    refine alike_limited (fun _ h => by cases h) fun hspent _ => .inr (.first ?_)
    rw [Exec.limited_none hspent]
    exact State.reachedLimit_refuseNesting _

/-- The second run has no room for an execution, and the first one gets deeper by it. -/
theorem limited_some_none (hexec : exec.Forward) (hdepth : depth ≤ k) :
    Lockstep lib calls depth k (Exec.limited lib (some exec)) (Exec.limited lib none) where
  forward := .limited fun _ h => by cases h; exact hexec
  forward' := .limited fun _ h => by cases h
  alike r s hr hk hfits := by
    refine alike_limited (fun _ h => by cases h; exact hexec) fun hspent hspent' => ?_
    obtain ⟨rule, hrule⟩ := Option.isSome_iff_exists.1 hr
    have hnesting := (Cursor.reachedLimit_eq_false_iff.1 hfits.unlimited).2
    have hlater := hexec.perform r s.spendCall.enter rule.kind
    rw [Exec.limited_of_rule hspent hnesting hrule, Exec.limited_none hspent']
    refine .inr (.nesting ?_ (State.reachedLimit_refuseNesting _))
    rw [State.settle_nesting]
    have hdeepest : max s.cursor.nesting.deepest (s.cursor.nesting.depth + 1) ≤
        (exec.perform r s.spendCall.enter rule.kind).2.cursor.nesting.deepest := hlater.deepest
    change depth < (exec.perform r s.spendCall.enter rule.kind).2.cursor.nesting.deepest
    omega

theorem limited_some (hclosed : lib.Closed) (hdepth : k < depth)
    (h : Lockstep lib calls depth (k + 1) exec exec') :
    Lockstep lib calls depth k (Exec.limited lib (some exec)) (Exec.limited lib (some exec')) where
  forward := .limited fun _ hexec => by cases hexec; exact h.forward
  forward' := .limited fun _ hexec => by cases hexec; exact h.forward'
  alike r s hr hk hfits := by
    refine alike_limited (fun _ hexec => by cases hexec; exact h.forward) fun hspent hspent' => ?_
    obtain ⟨rule, hrule⟩ := Option.isSome_iff_exists.1 hr
    have hnesting := (Cursor.reachedLimit_eq_false_iff.1 hfits.unlimited).2
    have hnesting' : (s.withLimits calls depth).cursor.nesting.exceeded = false := hnesting
    have hfits' : s.spendCall.enter.Fits calls depth := by
      refine ⟨hfits.unlimited, CallBudget.isSpent_eq_false_iff.1 hspent', ?_⟩
      have hdeepest := hfits.deepest
      change max s.cursor.nesting.deepest (s.cursor.nesting.depth + 1) ≤ depth
      omega
    have hk' : s.spendCall.enter.cursor.nesting.depth = k + 1 := by
      rw [← hk]
      rfl
    have hbody := h.perform (hclosed.targets r rule hrule) hk' hfits'
    have hstart : (s.withLimits calls depth).spendCall.enter =
        s.spendCall.enter.withLimits calls depth := rfl
    rw [Exec.limited_of_rule hspent hnesting hrule, Exec.limited_of_rule hspent' hnesting' hrule,
      hstart]
    rcases hbody with ⟨heq, hdone⟩ | hdiverged
    · refine .inl ⟨?_, hdone.settle _ _⟩
      rw [heq, State.settle_withLimits, State.settle_fst]
      rfl
    · exact .inr (hdiverged.settle _ _ _ _)

theorem memoized (h : Lockstep lib calls depth k exec exec') :
    Lockstep lib calls depth k (Exec.memoized exec) (Exec.memoized exec') where
  forward := h.forward.memoized
  forward' := h.forward'.memoized
  alike r s hr hk hfits := by
    cases hmemo : s.memo with
    | none =>
        have hmemo' : (s.withLimits calls depth).memo = none := hmemo
        rw [Exec.memoized_of_none hmemo, Exec.memoized_of_none hmemo']
        exact h.alike r s hr hk hfits
    | some memo =>
        have hmemo' : (s.withLimits calls depth).memo = some memo := hmemo
        rcases hhit : memo.outcome? r s.place.offset with _ | _ | d
        · have hfits' : s.countMiss.Fits calls depth :=
            ⟨hfits.unlimited, hfits.made, hfits.deepest⟩
          have halike := h.alike r s.countMiss hr hk hfits'
          have hstart : (s.withLimits calls depth).countMiss =
              s.countMiss.withLimits calls depth := rfl
          rw [Exec.memoized_of_miss hmemo hhit, Exec.memoized_of_miss hmemo' hhit, hstart]
          rcases halike with ⟨heq, hdone⟩ | hdiverged
          · have hunlimited' : ((exec r s.countMiss).2.withLimits calls depth).cursor.reachedLimit =
                false := hdone.unlimited
            rw [heq, State.learn_of_unlimited _ _ _ hdone.unlimited,
              State.learn_of_unlimited _ _ _ hunlimited']
            exact .inl ⟨rfl, hdone.unlimited, hdone.made, hdone.deepest⟩
          · exact .inr (hdiverged.later (State.later_learn _ _ _ _) (State.later_learn _ _ _ _))
        · rw [Exec.memoized_of_failure_hit hmemo hhit, Exec.memoized_of_failure_hit hmemo' hhit]
          exact .inl ⟨rfl, hfits.unlimited, hfits.made, hfits.deepest⟩
        · rw [Exec.memoized_of_hit hmemo hhit, Exec.memoized_of_hit hmemo' hhit]
          exact .inl ⟨rfl, hfits.unlimited, hfits.made, hfits.deepest⟩

end Lockstep

end Exec

namespace Library

variable {lib : Library} {calls : Option Nat} {depth : Nat}

theorem exec_lockstep (hclosed : lib.Closed) {room room' k : Nat} (hroom : k + room' = depth) :
    Exec.Lockstep lib calls depth k (lib.exec room) (lib.exec room') := by
  induction room generalizing room' k with
  | zero =>
      obtain ⟨inner', hexec', hinner'⟩ := lib.exec_eq_memoized room'
      rw [hexec']
      exact (Exec.Lockstep.limited_none hinner').memoized
  | succ room ih =>
      cases room' with
      | zero =>
          exact (Exec.Lockstep.limited_some_none (lib.exec_forward room) (by omega)).memoized
      | succ room' =>
          have hinner : Exec.Lockstep lib calls depth (k + 1) (lib.exec room) (lib.exec room') :=
            ih (by omega)
          exact (Exec.Lockstep.limited_some hclosed (by omega) hinner).memoized

/-- A run that is not inside an execution, and the same run under other limits. -/
theorem run_lockstep (hclosed : lib.Closed) {r : RuleRef} (hr : lib.Knows r) {s : State}
    (hdepth : s.cursor.nesting.depth = 0) (hfits : s.Fits calls depth) :
    Alike calls depth (lib.run r s) (lib.run r (s.withLimits calls depth)) := by
  have hroom : (s.withLimits calls depth).cursor.nesting.room = depth := by
    change depth - s.cursor.nesting.depth = depth
    rw [hdepth, Nat.sub_zero]
  unfold run
  rw [hroom]
  exact (exec_lockstep hclosed (Nat.zero_add depth)).alike r s hr hdepth hfits

end Library

end Peg
