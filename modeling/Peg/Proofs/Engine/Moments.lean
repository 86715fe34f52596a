import Mathlib.Computability.StateTransition
import Peg.Proofs.Engine.Later

/-!
# Runs step by step

A run goes through moments. At each of them it is about to ask the memo or a limit, to perform a
rule or to hand back an outcome, and a stack holds what is left to do with the outcome.
`Library.next` is the step from one moment to the next. It asks the limits as they are at that
moment, and no room for nesting is passed along. Main statement: `Library.precedes_run`, the moments
of a run lead to the outcome that `Library.run` gives.
-/

namespace Peg

open StateTransition

/-- What a run is about to do. -/
inductive Phase where
  /-- Ask the memo for the outcome of a rule. -/
  | consult (r : RuleRef)
  /-- Ask the call limit whether a rule may be run. -/
  | charge (r : RuleRef)
  /-- Ask the nesting limit whether a rule may be run. -/
  | enter (r : RuleRef)
  | perform (r : RuleRef) (kind : Kind RuleRef)
  | handBack (outcome : Option Derivation)

/-- What is left to do with an outcome that is handed back. -/
inductive Frame where
  /-- Leave a rule that was entered at a place. -/
  | leave (start : Place)
  | record (r : RuleRef) (offset : Nat)
  /-- Move the cursor back to a place. -/
  | back (place : Place)
  | wrap (r : RuleRef)
  /-- Go on with the further parts of a rule, the matches of the parts so far being `done`, latest
  first. -/
  | parts (r : RuleRef) (rest : List RuleRef) (done : List Derivation)
  | options (r : RuleRef) (rest : List RuleRef)
  /-- Go on with further rounds of a rule, as in `Exec.repeated`. -/
  | rounds (r body : RuleRef) (least : Nat) (most : Option Nat) (unread : List Char) (count : Nat)
      (done : List Derivation)
  /-- Match nothing if there is an outcome, or if there is none. -/
  | look (r : RuleRef) (ahead : Bool)
  /-- Go on with the characters in front of a rule, as in `Exec.upTo`. -/
  | scan (r stop : RuleRef) (start : Place) (rest : List Char) (passed : Nat)

structure Moment where
  phase : Phase
  stack : List Frame
  state : State

namespace Moment

/-! ## Single steps -/

section Steps

variable (stack : List Frame) (s : State)

def around (r : RuleRef) (done : List Derivation) : Derivation :=
  .branch r (Derivation.totalLength done.reverse) done.reverse

def parts (r : RuleRef) : List RuleRef → List Derivation → Moment
  | [], done => ⟨.handBack (some (around r done)), stack, s⟩
  | part :: rest, done => ⟨.consult part, .parts r rest done :: stack, s⟩

def options (r : RuleRef) : List RuleRef → Moment
  | [] => ⟨.handBack none, stack, s⟩
  | option :: rest => ⟨.consult option, .options r rest :: stack, s⟩

def ifEnough (r : RuleRef) (least count : Nat) (done : List Derivation) : Option Derivation :=
  if least ≤ count then some (around r done) else none

def rounds (r body : RuleRef) (least : Nat) (most : Option Nat) (unread : List Char) (count : Nat)
    (done : List Derivation) : Moment :=
  if most = some count then ⟨.handBack (ifEnough r least count done), stack, s⟩
  else ⟨.consult body, .rounds r body least most unread count done :: stack, s⟩

def ifPassed (r : RuleRef) (passed : Nat) : Option Derivation :=
  if 0 < passed then some (.branch r passed []) else none

def scan (r stop : RuleRef) (start : Place) (rest : List Char) (passed : Nat) : Moment :=
  ⟨.consult stop, .back s.place :: .scan r stop start rest passed :: stack, s⟩

def perform (r : RuleRef) : Kind RuleRef → Moment
  | .terminal matcher =>
    ⟨.handBack ((matcher.matchAt s.place.rest).map fun n => .branch r n []), stack, s⟩
  | .text literal ignoreCase =>
    let alike := if ignoreCase then sameLower else (· == ·)
    ⟨.handBack ((literalAt alike literal s.place.rest).map fun n => .branch r n []), stack, s⟩
  | .sequence children => parts stack s r (children.map r.sibling) []
  | .choice children => options stack s r (children.map r.sibling)
  | .rep body least most => rounds stack s r (r.sibling body) least most s.place.rest 0 []
  | .ahead body => ⟨.consult (r.sibling body), .back s.place :: .look r true :: stack, s⟩
  | .notAhead body => ⟨.consult (r.sibling body), .back s.place :: .look r false :: stack, s⟩
  | .upTo stop => scan stack s r (r.sibling stop) s.place s.place.rest 0
  | .ref _ target | .inherited _ target => ⟨.consult target, .wrap r :: stack, s⟩
  | .label body => ⟨.consult (r.sibling body), .wrap r :: stack, s⟩

def resume (outcome : Option Derivation) : Frame → Moment
  | .leave start => ⟨.handBack outcome, stack, (s.leave.settle start outcome).2⟩
  | .record r offset => ⟨.handBack outcome, stack, s.learn r offset outcome⟩
  | .back place => ⟨.handBack outcome, stack, s.moveTo place⟩
  | .wrap r => ⟨.handBack (outcome.map (.wrapped r)), stack, s⟩
  | .parts r rest done =>
    match outcome with
    | none => ⟨.handBack none, stack, s⟩
    | some d => parts stack s r rest (d :: done)
  | .options r rest =>
    match outcome with
    | none => options stack s r rest
    | some d => ⟨.handBack (some (.wrapped r d)), stack, s⟩
  | .rounds r body least most unread count done =>
    match outcome with
    | none => ⟨.handBack (ifEnough r least count done), stack, s⟩
    | some d =>
      if d.length = 0 then ⟨.handBack (some (around r (d :: done))), stack, s⟩
      else
        match unread with
        | [] => ⟨.handBack none, stack, s⟩
        | _ :: unread => rounds stack s r body least most unread (count + 1) (d :: done)
  | .look r ahead =>
    ⟨.handBack (if outcome.isSome = ahead then some (.branch r 0 []) else none), stack, s⟩
  | .scan r stop start rest passed =>
    match outcome, rest with
    | none, c :: rest =>
      scan stack (s.moveTo (s.place.past c rest)) r stop start rest (passed + c.utf8Size)
    | _, _ => ⟨.handBack (ifPassed r passed), stack, s.moveTo start⟩

end Steps

end Moment

namespace Library

variable {lib : Library}

/-- The step from one moment to the next. A run ends when there is nothing left to do with an
outcome. -/
def next (lib : Library) : Moment → Option Moment
  | ⟨.consult r, stack, s⟩ =>
    match s.memo with
    | none => some ⟨.charge r, stack, s⟩
    | some memo =>
      match memo.outcome? r s.place.offset with
      | some (some d) =>
        some ⟨.handBack (some d), stack,
          (s.noteReplay r s.place.offset).advanceTo (s.place.advance d.length)⟩
      | some none => some ⟨.handBack none, stack, s.countFailureHit⟩
      | none => some ⟨.charge r, .record r s.place.offset :: stack, s.countMiss⟩
  | ⟨.charge r, stack, s⟩ =>
    if s.cursor.calls.isSpent then some ⟨.handBack none, stack, s.refuseCall⟩
    else some ⟨.enter r, stack, s.spendCall⟩
  | ⟨.enter r, stack, s⟩ =>
    if s.cursor.nesting.exceeded ∨ s.cursor.nesting.limit ≤ s.cursor.nesting.depth then
      some ⟨.handBack none, stack, s.refuseNesting⟩
    else
      match lib.rule? r with
      | none => some ⟨.handBack none, stack, s⟩
      | some rule => some ⟨.perform r rule.kind, .leave s.place :: stack, s.enter⟩
  | ⟨.perform r kind, stack, s⟩ => some (.perform stack s r kind)
  | ⟨.handBack outcome, frame :: stack, s⟩ => some (.resume stack s outcome frame)
  | ⟨.handBack _, [], _⟩ => none

/-- One moment of a run comes before another one. -/
def Precedes (lib : Library) : Moment → Moment → Prop := Reaches lib.next

theorem Precedes.refl (m : Moment) : lib.Precedes m m := Relation.ReflTransGen.refl

theorem Precedes.trans {m m' m'' : Moment} (h : lib.Precedes m m') (h' : lib.Precedes m' m'') :
    lib.Precedes m m'' :=
  Relation.ReflTransGen.trans h h'

theorem Precedes.head {m m' m'' : Moment} (h : lib.next m = some m') (h' : lib.Precedes m' m'') :
    lib.Precedes m m'' :=
  Relation.ReflTransGen.head h h'

theorem Precedes.single {m m' : Moment} (h : lib.next m = some m') : lib.Precedes m m' :=
  Relation.ReflTransGen.single h

theorem Precedes.resume {m m' : Moment} {outcome : Option Derivation} {frame : Frame}
    {stack : List Frame} {s : State} (h : lib.Precedes m ⟨.handBack outcome, frame :: stack, s⟩)
    (h' : lib.Precedes (.resume stack s outcome frame) m') : lib.Precedes m m' :=
  h.trans (.head rfl h')

end Library

/-! ## The loops -/

theorem State.Later.room {s t : State} (h : s.Later t) :
    t.cursor.nesting.room = s.cursor.nesting.room := by
  rw [Nesting.room, Nesting.room, h.nestingLimit, h.depth]

namespace Exec

/-- As long as there is so much room for nesting, moments of an execution lead to its outcome. -/
structure Stepwise (lib : Library) (room : Nat) (exec : Exec) : Prop where
  forward : exec.Forward
  precedes : ∀ r stack s, s.cursor.nesting.room = room →
    lib.Precedes ⟨.consult r, stack, s⟩ ⟨.handBack (exec r s).1, stack, (exec r s).2⟩

namespace Stepwise

variable {lib : Library} {room : Nat} {exec : Exec} {stack : List Frame} {s : State}

theorem room_eq (h : Stepwise lib room exec) (r : RuleRef) (hs : s.cursor.nesting.room = room) :
    (exec r s).2.cursor.nesting.room = room :=
  (h.forward r s).room.trans hs

theorem test (h : Stepwise lib room exec) (r : RuleRef) (stack : List Frame)
    (hs : s.cursor.nesting.room = room) :
    lib.Precedes ⟨.consult r, .back s.place :: stack, s⟩
      ⟨.handBack (exec r s).1, stack, (exec.test r s).2⟩ :=
  (h.precedes r _ s hs).resume (.refl _)

theorem parts (h : Stepwise lib room exec) (r : RuleRef) (rs : List RuleRef)
    (done : List Derivation) (hs : s.cursor.nesting.room = room) :
    lib.Precedes (.parts stack s r rs done)
      ⟨.handBack ((exec.all rs s).1.map fun ds => Moment.around r (ds.reverse ++ done)), stack,
        (exec.all rs s).2⟩ := by
  induction rs generalizing done s with
  | nil => exact .refl _
  | cons part rs ih =>
      refine (h.precedes part _ s hs).resume ?_
      cases hout : (exec part s).1 with
      | none =>
          rw [Exec.all_cons_none rs hout]
          exact .refl _
      | some d =>
          have hrest := ih (d :: done) (h.room_eq part hs)
          have hdone : ((fun ds : List Derivation => Moment.around r (ds.reverse ++ done)) ∘
              (d :: ·)) = fun ds => Moment.around r (ds.reverse ++ d :: done) := by
            funext ds
            simp
          rw [Exec.all_cons_some rs hout, Option.map_map, hdone]
          exact hrest

theorem options (h : Stepwise lib room exec) (r : RuleRef) (rs : List RuleRef)
    (hs : s.cursor.nesting.room = room) :
    lib.Precedes (.options stack s r rs)
      ⟨.handBack ((exec.firstOf rs s).1.map (.wrapped r)), stack, (exec.firstOf rs s).2⟩ := by
  induction rs generalizing s with
  | nil => exact .refl _
  | cons option rs ih =>
      refine (h.precedes option _ s hs).resume ?_
      cases hout : (exec option s).1 with
      | none =>
          rw [Exec.firstOf_cons_none rs hout]
          exact ih (h.room_eq option hs)
      | some d =>
          rw [Exec.firstOf_cons_some rs hout]
          exact .refl _

theorem map_ifEnough (r : RuleRef) (least count : Nat) (done : List Derivation) :
    (if least ≤ count then some done.reverse else none).map
        (fun ds => Derivation.branch r (Derivation.totalLength ds) ds) =
      Moment.ifEnough r least count done := by
  unfold Moment.ifEnough
  split <;> rfl

theorem rounds (h : Stepwise lib room exec) (r body : RuleRef) (least : Nat) (most : Option Nat)
    (unread : List Char) (count : Nat) (done : List Derivation) {s : State}
    (hs : s.cursor.nesting.room = room) :
    lib.Precedes (.rounds stack s r body least most unread count done)
      ⟨.handBack ((exec.repeated body least most unread count done s).1.map fun ds =>
          .branch r (Derivation.totalLength ds) ds),
        stack, (exec.repeated body least most unread count done s).2⟩ := by
  unfold Moment.rounds
  split
  · next hmost =>
      rw [Exec.repeated_full unread done hmost, map_ifEnough]
      exact .refl _
  · next hmost =>
      refine (h.precedes body _ s hs).resume ?_
      cases hout : (exec body s).1 with
      | none =>
          rw [Exec.repeated_none unread done hmost hout, map_ifEnough]
          exact .refl _
      | some d =>
          by_cases hd : d.length = 0
          · have hend : Moment.resume stack (exec body s).2 (some d)
                (.rounds r body least most unread count done) =
                ⟨.handBack (some (Moment.around r (d :: done))), stack, (exec body s).2⟩ := if_pos hd
            rw [Exec.repeated_empty unread done hmost hout hd, hend]
            exact .refl _
          · cases unread with
            | nil =>
                rw [Exec.repeated_nil done hmost hout hd, Moment.resume, if_neg hd]
                exact .refl _
            | cons c unread =>
                rw [Exec.repeated_cons c unread done hmost hout hd, Moment.resume, if_neg hd]
                exact rounds h r body least most unread (count + 1) (d :: done) (h.room_eq body hs)

theorem scan (h : Stepwise lib room exec) (r stop : RuleRef) (start : Place) (rest : List Char)
    (passed : Nat) {s : State} (hs : s.cursor.nesting.room = room) :
    lib.Precedes (.scan stack s r stop start rest passed)
      ⟨.handBack (Moment.ifPassed r (exec.upTo stop rest passed s).1), stack,
        (exec.upTo stop rest passed s).2.moveTo start⟩ := by
  refine (h.test stop _ hs).resume ?_
  cases hout : (exec stop s).1 with
  | some d =>
      rw [Exec.upTo_found rest passed hout]
      exact .refl _
  | none =>
      cases rest with
      | nil =>
          rw [Exec.upTo_nil passed hout]
          exact .refl _
      | cons c rest =>
          rw [Exec.upTo_cons c rest passed hout]
          exact scan h r stop start rest (passed + c.utf8Size) (h.room_eq stop hs)

theorem perform (h : Stepwise lib room exec) (r : RuleRef) (stack : List Frame)
    (hs : s.cursor.nesting.room = room) (kind : Kind RuleRef) :
    lib.Precedes ⟨.perform r kind, stack, s⟩
      ⟨.handBack (exec.perform r s kind).1, stack, (exec.perform r s kind).2⟩ := by
  refine .head rfl ?_
  cases kind with
  | terminal _ | text _ _ => exact .refl _
  | sequence children =>
      have hparts : lib.Precedes (.parts stack s r (children.map r.sibling) []) _ :=
        h.parts r _ [] hs
      simp only [List.append_nil, Moment.around, List.reverse_reverse] at hparts
      exact hparts
  | choice children => exact h.options r _ hs
  | rep body least most => exact h.rounds r _ least most _ 0 [] hs
  | ahead body =>
      refine (h.test (r.sibling body) _ hs).resume ?_
      simp only [Moment.resume]
      exact .refl _
  | notAhead body =>
      refine (h.test (r.sibling body) _ hs).resume ?_
      have hout : (exec.perform r s (.notAhead body)).1 =
          if (exec (r.sibling body) s).1.isSome = false then some (.branch r 0 []) else none := by
        rw [Exec.perform_notAhead_fst]
        cases (exec (r.sibling body) s).1 <;> rfl
      rw [hout]
      exact .refl _
  | upTo stop => exact h.scan r _ s.place _ 0 hs
  | ref _ target | inherited _ target => exact (h.precedes target _ s hs).resume (.refl _)
  | label body => exact (h.precedes (r.sibling body) _ s hs).resume (.refl _)

end Stepwise

end Exec

/-! ## Executions -/

namespace Exec.Stepwise

variable {lib : Library} {room : Nat} {exec : Exec} {s : State}

/-- The call limit comes first, and the nesting limit is asked only if it allows the call. -/
theorem next_of_allowed (r : RuleRef) (stack : List Frame) (h : s.cursor.calls.isSpent = false) :
    lib.next ⟨.charge r, stack, s⟩ = some ⟨.enter r, stack, s.spendCall⟩ := by
  simp [Library.next, h]

theorem limited_none (r : RuleRef) (stack : List Frame) (hs : s.cursor.nesting.room = 0) :
    lib.Precedes ⟨.charge r, stack, s⟩
      ⟨.handBack (Exec.limited lib none r s).1, stack, (Exec.limited lib none r s).2⟩ := by
  cases hcalls : s.cursor.calls.isSpent with
  | true =>
      rw [Exec.limited_of_isSpent none hcalls]
      exact .single (by simp [Library.next, hcalls])
  | false =>
      have hfull : s.cursor.nesting.limit ≤ s.cursor.nesting.depth := Nat.sub_eq_zero_iff_le.1 hs
      rw [Exec.limited_none hcalls]
      exact .head (next_of_allowed r stack hcalls) (.single (if_pos (.inr hfull)))

theorem limited_some (h : Stepwise lib room exec) (r : RuleRef) (stack : List Frame)
    (hs : s.cursor.nesting.room = room + 1) :
    lib.Precedes ⟨.charge r, stack, s⟩
      ⟨.handBack (Exec.limited lib (some exec) r s).1, stack,
        (Exec.limited lib (some exec) r s).2⟩ := by
  cases hcalls : s.cursor.calls.isSpent with
  | true =>
      rw [Exec.limited_of_isSpent _ hcalls]
      exact .single (by simp [Library.next, hcalls])
  | false =>
      refine .head (next_of_allowed r stack hcalls) ?_
      cases hnesting : s.cursor.nesting.exceeded with
      | true =>
          rw [Exec.limited_of_exceeded hcalls hnesting]
          exact .single (if_pos (.inl hnesting))
      | false =>
          have hallowed : ¬(s.spendCall.cursor.nesting.exceeded ∨
              s.spendCall.cursor.nesting.limit ≤ s.spendCall.cursor.nesting.depth) := by
            rintro (hrefused | hfull)
            · have hrefused' : s.cursor.nesting.exceeded = true := hrefused
              rw [hnesting] at hrefused'
              cases hrefused'
            · have hfull' : s.cursor.nesting.limit ≤ s.cursor.nesting.depth := hfull
              rw [Nesting.room] at hs
              omega
          have hnext : lib.next ⟨.enter r, stack, s.spendCall⟩ =
              match lib.rule? r with
              | none => some ⟨.handBack none, stack, s.spendCall⟩
              | some rule =>
                some ⟨.perform r rule.kind, .leave s.place :: stack, s.spendCall.enter⟩ :=
            if_neg hallowed
          cases hrule : lib.rule? r with
          | none =>
              rw [Exec.limited_of_rule_none hcalls hnesting hrule]
              exact .single (by rw [hnext, hrule])
          | some rule =>
              have hroom : s.spendCall.enter.cursor.nesting.room = room := by
                change s.cursor.nesting.limit - (s.cursor.nesting.depth + 1) = room
                rw [Nesting.room] at hs
                omega
              rw [Exec.limited_of_rule hcalls hnesting hrule, State.settle_fst]
              refine .head (by rw [hnext, hrule]) ?_
              exact (h.perform r _ hroom rule.kind).resume (.refl _)

theorem memoized (hforward : exec.Forward)
    (hprecedes : ∀ r stack s, s.cursor.nesting.room = room →
      lib.Precedes ⟨.charge r, stack, s⟩ ⟨.handBack (exec r s).1, stack, (exec r s).2⟩) :
    Stepwise lib room (Exec.memoized exec) where
  forward := hforward.memoized
  precedes r stack s hs := by
    cases hmemo : s.memo with
    | none =>
        rw [Exec.memoized_of_none hmemo]
        exact .head (by simp only [Library.next, hmemo]) (hprecedes r stack s hs)
    | some memo =>
        rcases hhit : memo.outcome? r s.place.offset with _ | _ | d
        · rw [Exec.memoized_of_miss hmemo hhit]
          have hnext : lib.next ⟨.consult r, stack, s⟩ =
              some ⟨.charge r, .record r s.place.offset :: stack, s.countMiss⟩ := by
            simp only [Library.next, hmemo, hhit]
          refine .head hnext ?_
          exact (hprecedes r (.record r s.place.offset :: stack) s.countMiss hs).resume (.refl _)
        · rw [Exec.memoized_of_failure_hit hmemo hhit]
          exact .single (by simp only [Library.next, hmemo, hhit])
        · rw [Exec.memoized_of_hit hmemo hhit]
          exact .single (by simp only [Library.next, hmemo, hhit])

end Exec.Stepwise

namespace Library

theorem exec_stepwise (lib : Library) (room : Nat) : Exec.Stepwise lib room (lib.exec room) := by
  induction room with
  | zero =>
      have hnone : ∀ exec ∈ (none : Option Exec), exec.Forward := fun _ h => by cases h
      exact .memoized (.limited hnone) fun r stack s hs =>
        Exec.Stepwise.limited_none r stack hs
  | succ room ih =>
      have hsome : ∀ exec ∈ some (lib.exec room), exec.Forward := by
        intro exec h
        cases h
        exact ih.forward
      exact .memoized (.limited hsome) fun r stack s hs => ih.limited_some r stack hs

/-- The moments of a run lead to its outcome. -/
theorem precedes_run (lib : Library) (r : RuleRef) (stack : List Frame) (s : State) :
    lib.Precedes ⟨.consult r, stack, s⟩ ⟨.handBack (lib.run r s).1, stack, (lib.run r s).2⟩ :=
  (lib.exec_stepwise _).precedes r stack s rfl

/-- So do those of a run that only tests. -/
theorem precedes_test (lib : Library) (r : RuleRef) (stack : List Frame) (s : State) :
    lib.Precedes ⟨.consult r, .back s.place :: stack, s⟩
      ⟨.handBack (lib.run r s).1, stack, (lib.run.test r s).2⟩ :=
  (lib.precedes_run r _ s).resume (.refl _)

/-- So do those of a rule that is performed without asking limits or memo for it. -/
theorem precedes_runBare (lib : Library) {r : RuleRef} {rule : Rule RuleRef}
    (hrule : lib.rule? r = some rule) (stack : List Frame) (s : State) :
    lib.Precedes ⟨.perform r rule.kind, stack, s⟩
      ⟨.handBack (lib.runBare r s).1, stack, (lib.runBare r s).2⟩ := by
  have hbare : lib.runBare r s =
      (lib.exec s.cursor.nesting.room).perform r s rule.kind := by
    simp only [runBare, hrule]
  rw [hbare]
  exact (lib.exec_stepwise _).perform r stack rfl rule.kind

end Library

end Peg
