import Peg.Proofs.Engine.Moments

/-!
# What steps do to the limits

Each step of a run asks at most one thing of the limits (`Library.charge`), and what it does to them
depends on that alone (`Library.next_charge`). So the rules entered and not yet left account for the
depth, both limits hold at every moment, and a limit is exceeded at the end just if a step was
refused by it or it was exceeded before. Main statement: `Library.accounts_of_precedes`.
-/

namespace Peg

/-- What a step asks of the limits and how they answer. -/
inductive Charge where
  | nothing
  | call
  | callRefused
  | level
  | levelRefused
  /-- A level is given back. -/
  | levelLeft
deriving DecidableEq

namespace Charge

def calls (b : CallBudget) : Charge → CallBudget
  | call => b.spend
  | callRefused => b.refuse
  | _ => b

def nesting (n : Nesting) : Charge → Nesting
  | level => n.enter
  | levelRefused => n.refuse
  | levelLeft => n.leave
  | _ => n

end Charge

def Frame.isLeave : Frame → Bool
  | leave _ => true
  | _ => false

namespace Moment

def calls (m : Moment) : CallBudget := m.state.cursor.calls

def nesting (m : Moment) : Nesting := m.state.cursor.nesting

/-- How many rules are entered and not yet left. -/
def entered (m : Moment) : Nat := m.stack.countP Frame.isLeave

end Moment

theorem Frame.countP_leave (start : Place) (stack : List Frame) :
    (leave start :: stack).countP isLeave = stack.countP isLeave + 1 :=
  List.countP_cons_of_pos rfl

/-- What the step from a moment asks of the limits and how they answer. -/
def Library.charge (lib : Library) : Moment → Charge
  | ⟨.charge _, _, s⟩ => if s.cursor.calls.isSpent then .callRefused else .call
  | ⟨.enter r, _, s⟩ =>
    if s.cursor.nesting.exceeded ∨ s.cursor.nesting.limit ≤ s.cursor.nesting.depth then
      .levelRefused
    else if (lib.rule? r).isSome then .level else .nothing
  | ⟨.handBack _, .leave _ :: _, _⟩ => .levelLeft
  | _ => .nothing

/-- Why the limits answer as they do. -/
def Moment.Answers (m : Moment) : Charge → Prop
  | .nothing => True
  | .call => m.calls.isSpent = false
  | .callRefused => m.calls.isSpent = true
  | .level => m.nesting.exceeded = false ∧ m.nesting.depth < m.nesting.limit
  | .levelRefused => m.nesting.exceeded = true ∨ m.nesting.limit ≤ m.nesting.depth
  | .levelLeft => 0 < m.entered

theorem Library.charge_answers (lib : Library) (m : Moment) : m.Answers (lib.charge m) := by
  obtain ⟨phase, stack, s⟩ := m
  cases phase with
  | charge r =>
      simp only [charge]
      split
      · next hspent => exact hspent
      · next hspent => exact Bool.eq_false_iff.2 hspent
  | enter r =>
      simp only [charge]
      split
      · next hrefused => exact hrefused
      · next hallowed =>
          obtain ⟨hexceeded, hdepth⟩ := not_or.1 hallowed
          split
          · exact ⟨Bool.eq_false_iff.2 hexceeded, Nat.lt_of_not_le hdepth⟩
          · trivial
  | handBack outcome =>
      rcases stack with _ | ⟨frame, stack⟩
      · trivial
      · cases frame with
        | leave start =>
            have hentered := Frame.countP_leave start stack
            exact Nat.lt_of_lt_of_eq (Nat.succ_pos _) hentered.symm
        | _ => trivial
  | consult _ | perform _ _ => trivial

/-- The moment `m'` follows `m` by a step that asks something of the limits: nothing else changes
them, and a rule is entered or left just if a level is taken or given back. -/
structure Moment.Charged (c : Charge) (m m' : Moment) : Prop where
  calls : m'.calls = c.calls m.calls
  nesting : m'.nesting = c.nesting m.nesting
  entered : m'.entered + (if c = .levelLeft then 1 else 0) =
    m.entered + (if c = .level then 1 else 0)

namespace Moment

theorem Charged.nothing {m m' : Moment} (hcalls : m'.calls = m.calls)
    (hnesting : m'.nesting = m.nesting) (hentered : m'.entered = m.entered) :
    Charged .nothing m m' := ⟨hcalls, hnesting, hentered⟩

/-! ## Steps that ask nothing -/

section Steps

variable (stack : List Frame) (s : State) (r : RuleRef)

/-- The moment has the limits of the state and the rules entered of the stack. -/
structure Keeps (stack : List Frame) (s : State) (m : Moment) : Prop where
  calls : m.calls = s.cursor.calls
  nesting : m.nesting = s.cursor.nesting
  entered : m.entered = stack.countP Frame.isLeave

variable {stack s}

theorem Keeps.push {frame : Frame} {m : Moment} (h : Keeps (frame :: stack) s m)
    (hframe : frame.isLeave = false) : Keeps stack s m := by
  refine { h with entered := h.entered.trans ?_ }
  rw [List.countP_cons, hframe]
  rfl

theorem keeps_self (phase : Phase) : Keeps stack s ⟨phase, stack, s⟩ := ⟨rfl, rfl, rfl⟩

theorem keeps_parts (rest : List RuleRef) (done : List Derivation) :
    Keeps stack s (parts stack s r rest done) := by
  cases rest with
  | nil => exact keeps_self _
  | cons part rest => exact (keeps_self _).push rfl

theorem keeps_options (rest : List RuleRef) : Keeps stack s (options stack s r rest) := by
  cases rest with
  | nil => exact keeps_self _
  | cons option rest => exact (keeps_self _).push rfl

theorem keeps_rounds (body : RuleRef) (least : Nat) (most : Option Nat) (unread : List Char)
    (count : Nat) (done : List Derivation) :
    Keeps stack s (rounds stack s r body least most unread count done) := by
  unfold rounds
  split
  · exact keeps_self _
  · exact (keeps_self _).push rfl

theorem keeps_scan (stop : RuleRef) (start : Place) (rest : List Char) (passed : Nat) :
    Keeps stack s (scan stack s r stop start rest passed) :=
  ((keeps_self _).push rfl).push rfl

theorem keeps_perform (kind : Kind RuleRef) : Keeps stack s (perform stack s r kind) := by
  cases kind with
  | terminal _ | text _ _ => exact keeps_self _
  | sequence children => exact keeps_parts r _ _
  | choice children => exact keeps_options r _
  | rep body least most => exact keeps_rounds r _ _ _ _ _ _
  | ahead _ | notAhead _ => exact ((keeps_self _).push rfl).push rfl
  | upTo stop => exact keeps_scan r _ _ _ _
  | ref _ _ | inherited _ _ | label _ => exact (keeps_self _).push rfl

theorem keeps_resume {frame : Frame} (hframe : frame.isLeave = false)
    (outcome : Option Derivation) : Keeps stack s (resume stack s outcome frame) := by
  cases frame with
  | leave start => cases hframe
  | record r offset =>
      refine { keeps_self _ with calls := ?_, nesting := ?_ }
      · change (s.learn r offset outcome).cursor.calls = s.cursor.calls
        rw [State.learn_cursor]
      · change (s.learn r offset outcome).cursor.nesting = s.cursor.nesting
        rw [State.learn_cursor]
  | back place => exact ⟨rfl, rfl, rfl⟩
  | wrap r => exact keeps_self _
  | parts r rest done =>
      cases outcome with
      | none => exact keeps_self _
      | some d => exact keeps_parts r rest (d :: done)
  | options r rest =>
      cases outcome with
      | none => exact keeps_options r rest
      | some d => exact keeps_self _
  | rounds r body least most unread count done =>
      cases outcome with
      | none => exact keeps_self _
      | some d =>
          simp only [resume]
          split
          · exact keeps_self _
          · cases unread with
            | nil => exact keeps_self _
            | cons c unread => exact keeps_rounds r body least most unread _ _
  | look r ahead => exact keeps_self _
  | scan r stop start rest passed =>
      cases outcome with
      | some d => exact ⟨rfl, rfl, rfl⟩
      | none =>
          cases rest with
          | nil => exact ⟨rfl, rfl, rfl⟩
          | cons c rest =>
              have hscan : Keeps stack (s.moveTo (s.place.past c rest)) _ :=
                keeps_scan r stop start rest (passed + c.utf8Size)
              exact ⟨hscan.calls, hscan.nesting, hscan.entered⟩

end Steps

theorem Keeps.charged {phase : Phase} {stack : List Frame} {s : State} {m : Moment}
    (h : Keeps stack s m) : Charged .nothing ⟨phase, stack, s⟩ m :=
  .nothing h.calls h.nesting h.entered

end Moment

/-! ## All steps -/

namespace Library

variable {lib : Library} {m m' : Moment}

/-- What a step does to the limits depends on what it asks of them alone. -/
theorem next_charge (h : lib.next m = some m') : Moment.Charged (lib.charge m) m m' := by
  obtain ⟨phase, stack, s⟩ := m
  cases phase with
  | consult r =>
      cases hmemo : s.memo with
      | none =>
          simp only [next, hmemo, Option.some.injEq] at h
          subst h
          exact .nothing rfl rfl rfl
      | some memo =>
          rcases hhit : memo.outcome? r s.place.offset with _ | _ | d
          all_goals
            simp only [next, hmemo, hhit, Option.some.injEq] at h
            subst h
          · exact .nothing rfl rfl (List.countP_cons_of_neg Bool.false_ne_true)
          · exact .nothing rfl rfl rfl
          · exact .nothing rfl rfl rfl
  | charge r =>
      cases hspent : s.cursor.calls.isSpent with
      | true =>
          simp only [next, hspent, if_true, Option.some.injEq] at h
          subst h
          simp only [charge, hspent, if_true]
          exact ⟨rfl, rfl, rfl⟩
      | false =>
          simp only [next, hspent, Bool.false_eq_true, if_false, Option.some.injEq] at h
          subst h
          simp only [charge, hspent, Bool.false_eq_true, if_false]
          exact ⟨rfl, rfl, rfl⟩
  | enter r =>
      by_cases hrefused :
          s.cursor.nesting.exceeded = true ∨ s.cursor.nesting.limit ≤ s.cursor.nesting.depth
      · simp only [next, if_pos hrefused, Option.some.injEq] at h
        subst h
        simp only [charge, if_pos hrefused]
        exact ⟨rfl, rfl, rfl⟩
      · cases hrule : lib.rule? r with
        | none =>
            simp only [next, if_neg hrefused, hrule, Option.some.injEq] at h
            subst h
            simp only [charge, if_neg hrefused, hrule]
            exact ⟨rfl, rfl, rfl⟩
        | some rule =>
            simp only [next, if_neg hrefused, hrule, Option.some.injEq] at h
            subst h
            simp only [charge, if_neg hrefused, hrule]
            exact ⟨rfl, rfl, Frame.countP_leave s.place stack⟩
  | perform r kind =>
      simp only [next, Option.some.injEq] at h
      subst h
      exact (Moment.keeps_perform r kind).charged
  | handBack outcome =>
      cases stack with
      | nil => cases h
      | cons frame stack =>
          simp only [next, Option.some.injEq] at h
          subst h
          cases hframe : frame.isLeave with
          | true =>
              cases frame with
              | leave start =>
                  refine ⟨State.settle_calls _ _ _, State.settle_nesting _ _ _, ?_⟩
                  exact (Frame.countP_leave start stack).symm
              | _ => cases hframe
          | false =>
              have hkeeps : Moment.Keeps (frame :: stack) s (.resume stack s outcome frame) := by
                refine { Moment.keeps_resume hframe outcome with entered := ?_ }
                rw [(Moment.keeps_resume hframe outcome).entered, List.countP_cons, hframe]
                rfl
              have hcharge : lib.charge ⟨.handBack outcome, frame :: stack, s⟩ = .nothing := by
                cases frame with
                | leave start => cases hframe
                | _ => rfl
              rw [hcharge]
              exact hkeeps.charged

theorem exists_next_of_refused (h : lib.charge m = .callRefused ∨ lib.charge m = .levelRefused) :
    ∃ m', lib.next m = some m' := by
  obtain ⟨phase, stack, s⟩ := m
  cases phase with
  | charge r =>
      simp only [next]
      split <;> exact ⟨_, rfl⟩
  | enter r =>
      simp only [next]
      split
      · exact ⟨_, rfl⟩
      · cases lib.rule? r <;> exact ⟨_, rfl⟩
  | handBack outcome =>
      cases stack with
      | nil => rcases h with h | h <;> cases h
      | cons frame stack => exact ⟨_, rfl⟩
  | consult _ | perform _ _ => rcases h with h | h <;> cases h

end Library

/-! ## What every moment keeps -/

namespace Moment

/-- The limits hold, and there is a level for every rule that is entered and not yet left. -/
structure Within (m : Moment) : Prop where
  entered : m.entered ≤ m.nesting.depth
  depth : m.nesting.depth ≤ m.nesting.limit
  made : ∀ limit ∈ m.calls.limit, m.calls.made ≤ limit

/-- The moments are subject to the same limits, and the depth differs by the rules entered. -/
structure Balanced (m m' : Moment) : Prop where
  callLimit : m'.calls.limit = m.calls.limit
  nestingLimit : m'.nesting.limit = m.nesting.limit
  depth : m'.nesting.depth + m.entered = m.nesting.depth + m'.entered

variable {lib : Library} {m m' m'' : Moment}

theorem Balanced.refl (m : Moment) : m.Balanced m := ⟨rfl, rfl, rfl⟩

theorem Balanced.trans (h : m.Balanced m') (h' : m'.Balanced m'') : m.Balanced m'' where
  callLimit := h'.callLimit.trans h.callLimit
  nestingLimit := h'.nestingLimit.trans h.nestingLimit
  depth := by
    have hdepth := h.depth
    have hdepth' := h'.depth
    omega

theorem Within.calls_next (hm : m.Within) (h : lib.next m = some m') :
    m'.calls.limit = m.calls.limit ∧ ∀ limit ∈ m'.calls.limit, m'.calls.made ≤ limit := by
  have hanswers := lib.charge_answers m
  rw [(Library.next_charge h).calls]
  cases hcharge : lib.charge m with
  | call =>
      rw [hcharge] at hanswers
      exact ⟨rfl, CallBudget.isSpent_eq_false_iff.1 hanswers⟩
  | nothing | callRefused | level | levelRefused | levelLeft => exact ⟨rfl, hm.made⟩

theorem Within.nesting_next (hm : m.Within) (h : lib.next m = some m') :
    m'.nesting.limit = m.nesting.limit ∧ m'.nesting.depth ≤ m.nesting.limit ∧
      m'.nesting.depth + m.entered = m.nesting.depth + m'.entered := by
  have hanswers := lib.charge_answers m
  have hentered := (Library.next_charge h).entered
  have hopen := hm.entered
  have hdepth := hm.depth
  rw [(Library.next_charge h).nesting]
  cases hcharge : lib.charge m with
  | level =>
      simp only [hcharge, reduceCtorEq, if_true, if_false] at hanswers hentered
      have hallowed : m.nesting.depth < m.nesting.limit := hanswers.2
      refine ⟨rfl, ?_, ?_⟩ <;> simp only [Charge.nesting, Nesting.enter] <;> omega
  | levelLeft =>
      simp only [hcharge, reduceCtorEq, if_true, if_false] at hanswers hentered
      have hpos : 0 < m.entered := hanswers
      refine ⟨rfl, ?_, ?_⟩ <;> simp only [Charge.nesting, Nesting.leave] <;> omega
  | nothing | call | callRefused | levelRefused =>
      simp only [hcharge, reduceCtorEq, if_false] at hentered
      refine ⟨rfl, ?_, ?_⟩ <;> simp only [Charge.nesting, Nesting.refuse] <;> omega

theorem Within.next (hm : m.Within) (h : lib.next m = some m') : m'.Within ∧ m.Balanced m' := by
  obtain ⟨hcallLimit, hmade⟩ := hm.calls_next h
  obtain ⟨hnestingLimit, hdepth, hbalance⟩ := hm.nesting_next h
  have hopen := hm.entered
  refine ⟨⟨?_, ?_, hmade⟩, hcallLimit, hnestingLimit, hbalance⟩
  · omega
  · rw [hnestingLimit]
    exact hdepth

/-- Any number of steps keeps the limits and the balance. -/
theorem Within.precedes (hm : m.Within) (h : lib.Precedes m m') : m'.Within ∧ m.Balanced m' := by
  induction h with
  | refl => exact ⟨hm, .refl m⟩
  | tail _ hnext ih =>
      obtain ⟨hwithin, hbalanced⟩ := ih
      obtain ⟨hwithin', hbalanced'⟩ := hwithin.next hnext
      exact ⟨hwithin', hbalanced.trans hbalanced'⟩

/-- A level is only given back where one was taken. -/
theorem Within.depth_pos (hm : m.Within) (h : lib.charge m = .levelLeft) : 0 < m.nesting.depth := by
  have hanswers := lib.charge_answers m
  rw [h] at hanswers
  exact Nat.lt_of_lt_of_le hanswers hm.entered

end Moment

/-! ## What was refused -/

namespace Library

variable {lib : Library} {m m' : Moment}

theorem callsExceeded_next (h : lib.next m = some m') :
    m'.calls.exceeded = true ↔ m.calls.exceeded = true ∨ lib.charge m = .callRefused := by
  rw [(next_charge h).calls]
  cases lib.charge m <;>
    simp [Charge.calls, CallBudget.exceeded, CallBudget.spend, CallBudget.refuse]

theorem nestingExceeded_next (h : lib.next m = some m') :
    m'.nesting.exceeded = true ↔ m.nesting.exceeded = true ∨ lib.charge m = .levelRefused := by
  rw [(next_charge h).nesting]
  cases lib.charge m <;>
    simp [Charge.nesting, Nesting.exceeded, Nesting.enter, Nesting.refuse, Nesting.leave]

theorem Precedes.rest {x : Moment} (h : lib.Precedes m m') (hend : lib.next m' = none)
    (hx : lib.Precedes m x) : lib.Precedes x m' := by
  obtain hrest | hbeyond := StateTransition.reaches_total hx h
  · exact hrest
  · cases hbeyond using Relation.ReflTransGen.head_induction_on with
    | refl => exact .refl _
    | head hnext _ => rw [hend] at hnext; cases hnext

section Raised

variable {Raised : Moment → Prop} {refusal : Charge}
  (hnext : ∀ m m', lib.next m = some m' → (Raised m' ↔ Raised m ∨ lib.charge m = refusal))

include hnext

theorem Precedes.raised (h : lib.Precedes m m') (hm : Raised m) : Raised m' := by
  induction h with
  | refl => exact hm
  | tail _ hstep ih => exact (hnext _ _ hstep).2 (.inl ih)

theorem Precedes.exists_refused (h : lib.Precedes m m') (hm : ¬Raised m) (hm' : Raised m') :
    ∃ x, lib.Precedes m x ∧ lib.charge x = refusal := by
  induction h with
  | refl => exact absurd hm' hm
  | tail hprecedes hstep ih =>
      obtain hraised | hcharge := (hnext _ _ hstep).1 hm'
      · exact ih hraised
      · exact ⟨_, hprecedes, hcharge⟩

theorem Precedes.raised_iff (h : lib.Precedes m m') (hend : lib.next m' = none)
    (hrefusal : refusal = .callRefused ∨ refusal = .levelRefused) (hm : ¬Raised m) :
    Raised m' ↔ ∃ x, lib.Precedes m x ∧ lib.charge x = refusal := by
  refine ⟨h.exists_refused hnext hm, fun ⟨x, hx, hcharge⟩ => ?_⟩
  subst hcharge
  obtain ⟨x', hstep⟩ := exists_next_of_refused hrefusal
  have hx' : lib.Precedes x' m' := h.rest hend (hx.trans (.single hstep))
  exact hx'.raised hnext ((hnext x x' hstep).2 (.inr rfl))

end Raised

/-- How the limits fare in a run from its first moment to its last one: the depth is the same in the
end, every moment is subject to the same limits and within them, no level is given back at depth
zero, what is exceeded stays so, and a limit that was not exceeded before is exceeded in the end
just if it refused a step. -/
structure Accounts (lib : Library) (first last : Moment) : Prop where
  depth : last.nesting.depth = first.nesting.depth
  limits : ∀ m, lib.Precedes first m →
    m.nesting.limit = first.nesting.limit ∧ m.calls.limit = first.calls.limit
  within : ∀ m, lib.Precedes first m →
    m.nesting.depth ≤ m.nesting.limit ∧ ∀ limit ∈ m.calls.limit, m.calls.made ≤ limit
  levels : ∀ m, lib.Precedes first m → lib.charge m = .levelLeft → 0 < m.nesting.depth
  callsExceeded : ∀ m m', lib.Precedes m m' → m.calls.exceeded = true → m'.calls.exceeded = true
  nestingExceeded : ∀ m m', lib.Precedes m m' →
    m.nesting.exceeded = true → m'.nesting.exceeded = true
  callsRefused : first.calls.exceeded = false →
    (last.calls.exceeded = true ↔ ∃ m, lib.Precedes first m ∧ lib.charge m = .callRefused)
  nestingRefused : first.nesting.exceeded = false →
    (last.nesting.exceeded = true ↔ ∃ m, lib.Precedes first m ∧ lib.charge m = .levelRefused)

theorem accounts_of_precedes {first : Moment} {outcome : Option Derivation} {s : State}
    (hprecedes : lib.Precedes first ⟨.handBack outcome, [], s⟩) (hentered : first.entered = 0)
    (hdepth : first.nesting.depth ≤ first.nesting.limit)
    (hmade : ∀ limit ∈ first.calls.limit, first.calls.made ≤ limit) :
    lib.Accounts first ⟨.handBack outcome, [], s⟩ := by
  have hfirst : first.Within := ⟨hentered ▸ Nat.zero_le _, hdepth, hmade⟩
  have hmoments m (h : lib.Precedes first m) := hfirst.precedes h
  refine ⟨?_, fun m h => ?_, fun m h => ?_, fun m h => ?_, ?_, ?_, fun hclear => ?_,
    fun hclear => ?_⟩
  · have hbalance := (hmoments _ hprecedes).2.depth
    rw [hentered] at hbalance
    exact hbalance
  · exact ⟨(hmoments m h).2.nestingLimit, (hmoments m h).2.callLimit⟩
  · exact ⟨(hmoments m h).1.depth, (hmoments m h).1.made⟩
  · exact (hmoments m h).1.depth_pos
  · exact fun m m' h => h.raised fun _ _ => callsExceeded_next
  · exact fun m m' h => h.raised fun _ _ => nestingExceeded_next
  · exact hprecedes.raised_iff (fun _ _ => callsExceeded_next) rfl (.inl rfl)
      (Bool.eq_false_iff.1 hclear)
  · exact hprecedes.raised_iff (fun _ _ => nestingExceeded_next) rfl (.inr rfl)
      (Bool.eq_false_iff.1 hclear)

end Library

end Peg
