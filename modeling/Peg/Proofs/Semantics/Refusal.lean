import Peg.Proofs.Engine.Scans
import Peg.Proofs.Semantics.Soundness

/-!
# Runs that are refused something

Up to the first refusal a run does what it would do without limits. From then on everything is
refused but what the memo answers, and the furthest offset stays where it is: the matches that are
still open end where matches inside them ended, so they do not move it either. Only a scan that is
open runs on to the end of the text and may move it there. Main statement: `Library.exec_refusing`.
-/

namespace Peg

namespace State

/-- Every further execution is refused. -/
def Barred (s : State) : Prop :=
  s.cursor.calls.isSpent = true ∨ s.cursor.nesting.exceeded = true

/-- How far executions of the extent get from a state on. An empty match ends where the cursor is. -/
def horizon (s : State) (e : Extent) : Nat := max (max s.cursor.furthest e.reach) s.place.offset

/-- What holds after a refusal: the furthest offset is within the bound, or at the end of the text on
account of a scan. -/
structure Struck (t : State) (bound scans : Nat) : Prop where
  barred : t.Barred
  within : t.cursor.furthest ≤ bound ∨
    byteLength t.cursor.source ≤ t.cursor.furthest ∧ 0 < scans

variable {s t : State}

theorem Barred.later (h : s.Barred) (hlater : s.Later t) : t.Barred := by
  refine h.imp (fun hspent => ?_) (fun hexceeded => ?_)
  · obtain ⟨limit, hlimit, hle⟩ := CallBudget.exists_le_of_isSpent hspent
    unfold CallBudget.isSpent
    rw [hlater.callLimit, Option.any_eq_true]
    exact ⟨limit, hlimit, decide_eq_true (Nat.le_trans hle hlater.made)⟩
  · have hle := hlater.nestingRefused
    simp only [Nesting.exceeded, bne_iff_ne] at hexceeded ⊢
    omega

theorem le_horizon (s : State) (e : Extent) : s.place.offset ≤ s.horizon e := Nat.le_max_right _ _

theorem horizon_mono (s : State) {e e' : Extent} (h : e.reach ≤ e'.reach) :
    s.horizon e ≤ s.horizon e' := by
  unfold horizon
  omega

theorem horizon_andThen {e : Extent} (hfurthest : t.cursor.furthest = max s.cursor.furthest e.reach)
    (hplace : t.place.offset ≤ s.horizon e) (e' : Extent) :
    t.horizon e' ≤ s.horizon (e.andThen e') := by
  unfold horizon at hplace ⊢
  simp only [Extent.andThen]
  omega

theorem horizon_around (s : State) (e : Extent) (p : Place) (outcome : Option Derivation) :
    s.horizon e ≤ s.horizon (e.around p outcome) := by
  refine horizon_mono s ?_
  cases outcome with
  | none => exact Nat.le_refl _
  | some d => exact Nat.le_max_left _ _

namespace Struck

variable {bound bound' scans scans' : Nat}

theorem mono (h : t.Struck bound scans) (hbound : bound ≤ bound') (hscans : 0 < scans → 0 < scans') :
    t.Struck bound' scans' :=
  ⟨h.barred, h.within.imp (fun hle => Nat.le_trans hle hbound) fun hend => ⟨hend.1, hscans hend.2⟩⟩

theorem later {u : State} (h : t.Struck bound scans) (hlater : t.Later u)
    (hfurthest : u.cursor.furthest = t.cursor.furthest) : u.Struck bound scans := by
  refine ⟨h.barred.later hlater, ?_⟩
  rw [hfurthest, hlater.source]
  exact h.within

theorem of_cursor_eq {u : State} (h : t.Struck bound scans) (hcursor : u.cursor = t.cursor) :
    u.Struck bound scans := by
  obtain ⟨hbarred, hwithin⟩ := h
  unfold Barred at hbarred
  rw [← hcursor] at hbarred hwithin
  exact ⟨hbarred, hwithin⟩

theorem settle (h : t.Struck bound scans) {p : Place} (hp : p.offset ≤ bound)
    {outcome : Option Derivation}
    (hends : ∀ d ∈ outcome, p.offset + d.length ≤ max p.offset t.cursor.furthest) :
    (t.leave.settle p outcome).2.Struck bound scans := by
  cases outcome with
  | none => exact ⟨h.barred, h.within⟩
  | some d =>
      have hend := hends d rfl
      refine ⟨h.barred, ?_⟩
      change max t.cursor.furthest (p.offset + d.length) ≤ bound ∨
        byteLength t.cursor.source ≤ max t.cursor.furthest (p.offset + d.length) ∧ 0 < scans
      rcases h.within with hle | ⟨hle, hscans⟩
      · exact .inl (by omega)
      · exact .inr ⟨by omega, hscans⟩

theorem settle_end (h : t.Struck bound scans) {p : Place} {d : Derivation}
    (hend : p.offset + d.length = byteLength t.cursor.source) (hscans : 0 < scans') :
    (t.leave.settle p (some d)).2.Struck bound scans' := by
  refine ⟨h.barred, .inr ⟨?_, hscans⟩⟩
  change byteLength t.cursor.source ≤ max t.cursor.furthest (p.offset + d.length)
  omega

end Struck

end State

/-! ## What loops ask for first

The outcome of the execution that a loop asks for first, and how the loop goes on from there. -/

namespace Judgement

variable {R : Judgement} {r : RuleRef} {p : Place} {e : Extent}

theorem All.head {rs : List RuleRef} {o : Option (List Derivation)} (h : R.All (r :: rs) p o e) :
    ∃ o' e', R r p o' e' ∧ e'.reach ≤ e.reach ∧ ∀ d, o' = some d →
      ∃ tail e'', R.All rs (p.advance d.length) tail e'' ∧ e = e'.andThen e'' := by
  cases h with
  | fail hr => exact ⟨_, _, hr, Nat.le_refl _, nofun⟩
  | cons hr hrs =>
      refine ⟨_, _, hr, Nat.le_max_left _ _, fun d hd => ?_⟩
      cases hd
      exact ⟨_, _, hrs, rfl⟩

theorem First.head {rs : List RuleRef} {o : Option Derivation} (h : R.First (r :: rs) p o e) :
    ∃ o' e', R r p o' e' ∧ e'.reach ≤ e.reach ∧ (o' = none →
      ∃ e'', R.First rs p o e'' ∧ e = e'.andThen e'') := by
  cases h with
  | found hr => exact ⟨_, _, hr, Nat.le_refl _, nofun⟩
  | next hr hrs => exact ⟨_, _, hr, Nat.le_max_left _ _, fun _ => ⟨_, hrs, rfl⟩⟩

theorem Repeated.head {count least : Nat} {most : Option Nat} {o : Option (List Derivation)}
    (h : R.Repeated count r least most p o e) (hmost : most ≠ some count) :
    ∃ o' e', R r p o' e' ∧ e'.reach ≤ e.reach ∧ ∀ d, o' = some d → d.length ≠ 0 →
      ∃ tail e'', R.Repeated (count + 1) r least most (p.advance d.length) tail e'' ∧
        e = e'.andThen e'' := by
  cases h with
  | full hfull => exact absurd hfull hmost
  | stop _ hr => exact ⟨_, _, hr, Nat.le_refl _, nofun⟩
  | empty _ hr hlen =>
      refine ⟨_, _, hr, Nat.le_refl _, fun d hd hne => ?_⟩
      cases hd
      exact absurd hlen hne
  | more _ hr _ hrounds =>
      refine ⟨_, _, hr, Nat.le_max_left _ _, fun d hd _ => ?_⟩
      cases hd
      exact ⟨_, _, hrounds, rfl⟩

theorem UpTo.head {k : Nat} (h : R.UpTo p r k e) :
    ∃ o' e', R r p o' e' ∧ e'.reach ≤ e.reach ∧ (o' = none → ∀ c rest, p.rest = c :: rest →
      ∃ k' e'', R.UpTo (p.past c rest) r k' e'' ∧ k = c.utf8Size + k' ∧ e = e'.andThen e'') := by
  cases h with
  | found hr => exact ⟨_, _, hr, Nat.le_refl _, nofun⟩
  | ended hr hend =>
      refine ⟨_, _, hr, Nat.le_refl _, fun _ c rest hrest => ?_⟩
      rw [hend] at hrest
      cases hrest
  | past hr hpast hrs =>
      refine ⟨_, _, hr, Nat.le_max_left _ _, fun _ c rest hrest => ?_⟩
      rw [hpast] at hrest
      cases hrest
      exact ⟨_, _, hrs, rfl, rfl⟩

end Judgement

namespace Exec

theorem Sound.faithful {lib : Library} {n : Nat} {exec : Exec} (h : exec.Sound lib n) {r : RuleRef}
    {s : State} (hr : lib.Knows r) (hs : lib.Ready s) {o : Option Derivation} {e : Extent}
    (hyields : lib.Yields r s.place o e) (hreached : (exec r s).2.cursor.reachedLimit = false) :
    (exec r s).1 = o ∧ (exec r s).2.cursor.furthest = max s.cursor.furthest e.reach := by
  obtain ⟨e', he', hspends⟩ := (h.follows r s hr hs).leads.means hreached
  obtain ⟨hout, rfl⟩ := Library.Yields.unique he' hyields
  exact ⟨hout, hspends.furthest⟩

/-- Runs of rules of the library move the furthest offset up to the ends of their matches, nowhere
once everything is refused, and before that no further than the outcomes of the rules reach, unless
a scan is cut short. -/
structure Refusing (lib : Library) (n : Nat) (scans : Tally) (exec : Exec) : Prop where
  sound : exec.Sound lib n
  ends : ∀ r s d, (exec r s).1 = some d →
    s.place.offset + d.length ≤ (exec r s).2.cursor.furthest
  idle : ∀ r s, lib.Knows r → lib.Ready s → s.Barred →
    (exec r s).2.cursor.furthest = s.cursor.furthest
  struck : ∀ r s o e, lib.Knows r → lib.Ready s → s.cursor.reachedLimit = false →
    lib.Yields r s.place o e → (exec r s).2.cursor.reachedLimit = true →
    (exec r s).2.Struck (s.horizon e) (scans r s)

namespace Refusing

variable {lib : Library} {n : Nat} {scans : Tally} {exec : Exec} {r : RuleRef} {s : State}

theorem ready (h : exec.Refusing lib n scans) (hr : lib.Knows r) (hs : lib.Ready s) :
    lib.Ready (exec r s).2 :=
  (h.sound.follows r s hr hs).leads.ready

theorem struck_head (h : exec.Refusing lib n scans) (hr : lib.Knows r) (hs : lib.Ready s)
    (hlimit : s.cursor.reachedLimit = false) {o : Option Derivation} {e e' : Extent}
    (hyields : lib.Yields r s.place o e) (hreached : (exec r s).2.cursor.reachedLimit = true)
    {u : State} (hlater : (exec r s).2.Later u)
    (hidle : (exec r s).2.Barred → u.cursor.furthest = (exec r s).2.cursor.furthest)
    (hreach : e.reach ≤ e'.reach) {count : Nat} (hcount : scans r s ≤ count) :
    u.Struck (s.horizon e') count := by
  have hstruck := h.struck r s o e hr hs hlimit hyields hreached
  have hrest := hstruck.later hlater (hidle hstruck.barred)
  exact hrest.mono (s.horizon_mono hreach) fun hpos => Nat.lt_of_lt_of_le hpos hcount

theorem horizon_next (h : exec.Refusing lib n scans) (hr : lib.Knows r) (hs : lib.Ready s)
    {o : Option Derivation} {e : Extent} (hyields : lib.Yields r s.place o e)
    (hreached : (exec r s).2.cursor.reachedLimit = false) (e' : Extent) :
    (exec r s).2.horizon e' ≤ s.horizon (e.andThen e') := by
  obtain ⟨hout, hfurthest⟩ := h.sound.faithful hr hs hyields hreached
  refine State.horizon_andThen hfurthest ?_ e'
  rw [(h.sound.follows r s hr hs).place, hout]
  cases o with
  | none => exact s.le_horizon e
  | some d =>
      have hend := hyields.end_le_reach
      simp only [Place.after, Place.advance, State.horizon]
      omega

/-! ## Rules in a row

Like every loop they move nothing once everything is refused, and where they match they end where the
last match inside them does. If something is refused for the first time in one of their executions, those
before it found what their rules yield and those after it move nothing. -/

theorem all_idle_head {rs : List RuleRef} (hrs : ∀ {s : State}, lib.Ready s → s.Barred →
      (exec.all rs s).2.cursor.furthest = s.cursor.furthest)
    (hready : lib.Ready (exec r s).2) (hbarred : (exec r s).2.Barred) :
    (exec.all (r :: rs) s).2.cursor.furthest = (exec r s).2.cursor.furthest := by
  cases hout : (exec r s).1 with
  | none => rw [Exec.all_cons_none rs hout]
  | some d =>
      rw [Exec.all_cons_some rs hout]
      exact hrs hready hbarred

theorem all_idle (h : exec.Refusing lib n scans) {rs : List RuleRef} (hrs : ∀ r ∈ rs, lib.Knows r)
    (hs : lib.Ready s) (hbarred : s.Barred) :
    (exec.all rs s).2.cursor.furthest = s.cursor.furthest := by
  induction rs generalizing s with
  | nil => rfl
  | cons r rs ih =>
      obtain ⟨hr, hrest⟩ := List.forall_mem_cons.1 hrs
      have hlater := hbarred.later (h.sound.forward r s)
      exact (all_idle_head (ih hrest) (h.ready hr hs) hlater).trans (h.idle r s hr hs hbarred)

theorem all_ends (h : exec.Refusing lib n scans) {rs : List RuleRef} (hrs : ∀ r ∈ rs, lib.Knows r)
    (hs : lib.Ready s) : ∀ ds ∈ (exec.all rs s).1, s.place.offset + Derivation.totalLength ds ≤
      max s.place.offset (exec.all rs s).2.cursor.furthest := by
  induction rs generalizing s with
  | nil =>
      intro ds hds
      cases hds
      exact Nat.le_max_left _ _
  | cons r rs ih =>
      obtain ⟨hr, hrest⟩ := List.forall_mem_cons.1 hrs
      intro ds hds
      cases hout : (exec r s).1 with
      | none =>
          rw [Exec.all_cons_none rs hout] at hds
          cases hds
      | some d =>
          rw [Exec.all_cons_some rs hout] at hds ⊢
          obtain ⟨tail, htail, rfl⟩ := Option.map_eq_some_iff.1 hds
          have hend := h.ends r s d hout
          have htails := ih hrest (h.ready hr hs) tail htail
          -- The rest may match nothing, and then the first match is the one that ends last.
          have hlater := (h.sound.forward.all rs (exec r s).2).furthest
          rw [(h.sound.follows r s hr hs).place_of_some hout] at htails
          simp only [Place.advance, Derivation.totalLength] at htails ⊢
          omega

theorem all_struck (h : exec.Refusing lib n scans) {rs : List RuleRef}
    (hrs : ∀ r ∈ rs, lib.Knows r) (hs : lib.Ready s) (hlimit : s.cursor.reachedLimit = false)
    {o : Option (List Derivation)} {e : Extent}
    (hyields : Judgement.All lib.Yields rs s.place o e)
    (hreached : (exec.all rs s).2.cursor.reachedLimit = true) :
    (exec.all rs s).2.Struck (s.horizon e) (scans.all exec rs s) := by
  induction rs generalizing s o e with
  | nil =>
      change s.cursor.reachedLimit = true at hreached
      rw [hlimit] at hreached
      cases hreached
  | cons r rs ih =>
      obtain ⟨hr, hrest⟩ := List.forall_mem_cons.1 hrs
      have hready := h.ready hr hs
      obtain ⟨o', e', hyield, hreach, hmore⟩ := hyields.head
      cases hfirst : (exec r s).2.cursor.reachedLimit with
      | true =>
          exact h.struck_head hr hs hlimit hyield hfirst
            (Forward.all_head (h.sound.forward.all rs) r s)
            (all_idle_head (h.all_idle hrest) hready) hreach (Nat.le_add_right _ _)
      | false =>
          obtain ⟨hout, -⟩ := h.sound.faithful hr hs hyield hfirst
          cases o' with
          | none =>
              rw [Exec.all_cons_none rs hout, hfirst] at hreached
              cases hreached
          | some d =>
              obtain ⟨tail, e'', htail, rfl⟩ := hmore d rfl
              rw [← (h.sound.follows r s hr hs).place_of_some hout] at htail
              rw [Exec.all_cons_some rs hout] at hreached ⊢
              have hstruck := ih hrest hready hfirst htail hreached
              refine hstruck.mono (h.horizon_next hr hs hyield hfirst e'') fun hpos => ?_
              simp only [Tally.all, hout, Option.isSome_some, if_true]
              omega

/-! ## The first of some rules -/

theorem firstOf_idle_head {rs : List RuleRef} (hrs : ∀ {s : State}, lib.Ready s → s.Barred →
      (exec.firstOf rs s).2.cursor.furthest = s.cursor.furthest)
    (hready : lib.Ready (exec r s).2) (hbarred : (exec r s).2.Barred) :
    (exec.firstOf (r :: rs) s).2.cursor.furthest = (exec r s).2.cursor.furthest := by
  cases hout : (exec r s).1 with
  | none =>
      rw [Exec.firstOf_cons_none rs hout]
      exact hrs hready hbarred
  | some d => rw [Exec.firstOf_cons_some rs hout]

theorem firstOf_idle (h : exec.Refusing lib n scans) {rs : List RuleRef}
    (hrs : ∀ r ∈ rs, lib.Knows r) (hs : lib.Ready s) (hbarred : s.Barred) :
    (exec.firstOf rs s).2.cursor.furthest = s.cursor.furthest := by
  induction rs generalizing s with
  | nil => rfl
  | cons r rs ih =>
      obtain ⟨hr, hrest⟩ := List.forall_mem_cons.1 hrs
      have hlater := hbarred.later (h.sound.forward r s)
      exact (firstOf_idle_head (ih hrest) (h.ready hr hs) hlater).trans (h.idle r s hr hs hbarred)

theorem firstOf_ends (h : exec.Refusing lib n scans) {rs : List RuleRef}
    (hrs : ∀ r ∈ rs, lib.Knows r) (hs : lib.Ready s) : ∀ d ∈ (exec.firstOf rs s).1,
      s.place.offset + d.length ≤ (exec.firstOf rs s).2.cursor.furthest := by
  induction rs generalizing s with
  | nil => nofun
  | cons r rs ih =>
      obtain ⟨hr, hrest⟩ := List.forall_mem_cons.1 hrs
      cases hout : (exec r s).1 with
      | none =>
          rw [Exec.firstOf_cons_none rs hout, ← (h.sound.follows r s hr hs).place_of_none hout]
          exact ih hrest (h.ready hr hs)
      | some d =>
          rw [Exec.firstOf_cons_some rs hout]
          intro d' hd'
          cases hd'
          exact h.ends r s d hout

theorem firstOf_struck (h : exec.Refusing lib n scans) {rs : List RuleRef}
    (hrs : ∀ r ∈ rs, lib.Knows r) (hs : lib.Ready s) (hlimit : s.cursor.reachedLimit = false)
    {o : Option Derivation} {e : Extent} (hyields : Judgement.First lib.Yields rs s.place o e)
    (hreached : (exec.firstOf rs s).2.cursor.reachedLimit = true) :
    (exec.firstOf rs s).2.Struck (s.horizon e) (scans.firstOf exec rs s) := by
  induction rs generalizing s o e with
  | nil =>
      change s.cursor.reachedLimit = true at hreached
      rw [hlimit] at hreached
      cases hreached
  | cons r rs ih =>
      obtain ⟨hr, hrest⟩ := List.forall_mem_cons.1 hrs
      have hready := h.ready hr hs
      obtain ⟨o', e', hyield, hreach, hmore⟩ := hyields.head
      cases hfirst : (exec r s).2.cursor.reachedLimit with
      | true =>
          exact h.struck_head hr hs hlimit hyield hfirst
            (Forward.firstOf_head (h.sound.forward.firstOf rs) r s)
            (firstOf_idle_head (h.firstOf_idle hrest) hready) hreach (Nat.le_add_right _ _)
      | false =>
          obtain ⟨hout, -⟩ := h.sound.faithful hr hs hyield hfirst
          cases o' with
          | some d =>
              rw [Exec.firstOf_cons_some rs hout, hfirst] at hreached
              cases hreached
          | none =>
              obtain ⟨e'', htail, rfl⟩ := hmore rfl
              rw [← (h.sound.follows r s hr hs).place_of_none hout] at htail
              rw [Exec.firstOf_cons_none rs hout] at hreached ⊢
              have hstruck := ih hrest hready hfirst htail hreached
              refine hstruck.mono (h.horizon_next hr hs hyield hfirst e'') fun hpos => ?_
              simp only [Tally.firstOf, hout, Option.isSome_none, Bool.false_eq_true, if_false]
              omega

/-! ## Rounds of a rule -/

section Repeated

variable {least : Nat} {most : Option Nat}

theorem repeated_idle_head {unread : List Char}
    (hrest : ∀ c rest, unread = c :: rest → ∀ (count : Nat) {s : State}, lib.Ready s → s.Barred →
      (exec.repeated r least most rest count [] s).2.cursor.furthest = s.cursor.furthest)
    {count : Nat} (hmost : most ≠ some count) (hready : lib.Ready (exec r s).2)
    (hbarred : (exec r s).2.Barred) :
    (exec.repeated r least most unread count [] s).2.cursor.furthest =
      (exec r s).2.cursor.furthest := by
  cases hout : (exec r s).1 with
  | none => rw [Exec.repeated_none unread [] hmost hout]
  | some d =>
      by_cases hd : d.length = 0
      · rw [Exec.repeated_empty unread [] hmost hout hd]
      cases unread with
      | nil => rw [Exec.repeated_nil [] hmost hout hd]
      | cons c rest =>
          rw [Exec.repeated_more c rest hmost hout hd]
          exact hrest c rest rfl _ hready hbarred

theorem repeated_idle (h : exec.Refusing lib n scans) (hr : lib.Knows r) (unread : List Char)
    (count : Nat) {s : State} (hs : lib.Ready s) (hbarred : s.Barred) :
    (exec.repeated r least most unread count [] s).2.cursor.furthest = s.cursor.furthest := by
  by_cases hmost : most = some count
  · rw [Exec.repeated_full unread [] hmost]
  have hafter := hbarred.later (h.sound.forward r s)
  refine (repeated_idle_head ?_ hmost (h.ready hr hs) hafter).trans (h.idle r s hr hs hbarred)
  intro c rest hunread count s
  subst hunread
  exact repeated_idle h hr rest count

theorem repeated_ends (h : exec.Refusing lib n scans) (hr : lib.Knows r) (unread : List Char)
    (count : Nat) {s : State} (hs : lib.Ready s) :
    ∀ ds ∈ (exec.repeated r least most unread count [] s).1,
      s.place.offset + Derivation.totalLength ds ≤ max s.place.offset
        (exec.repeated r least most unread count [] s).2.cursor.furthest := by
  have henough (furthest : Nat) : ∀ ds ∈ if least ≤ count then some [] else none,
      s.place.offset + Derivation.totalLength ds ≤ max s.place.offset furthest := by
    intro ds hds
    rw [Option.mem_def] at hds
    split at hds
    · cases hds
      exact Nat.le_max_left _ _
    · cases hds
  by_cases hmost : most = some count
  · rw [Exec.repeated_full unread [] hmost]
    exact henough _
  cases hout : (exec r s).1 with
  | none =>
      rw [Exec.repeated_none unread [] hmost hout]
      exact henough _
  | some d =>
      have hend := h.ends r s d hout
      intro ds hds
      by_cases hd : d.length = 0
      · rw [Exec.repeated_empty unread [] hmost hout hd] at hds ⊢
        cases hds
        exact Nat.le_trans hend (Nat.le_max_right _ _)
      cases unread with
      | nil =>
          rw [Exec.repeated_nil [] hmost hout hd] at hds
          cases hds
      | cons c rest =>
          rw [Exec.repeated_more c rest hmost hout hd] at hds ⊢
          obtain ⟨tail, htail, rfl⟩ := Option.map_eq_some_iff.1 hds
          have htails := repeated_ends h hr rest (count + 1) (h.ready hr hs) tail htail
          have hlater : (exec r s).2.Later
              (exec.repeated r least most rest (count + 1) [] (exec r s).2).2 :=
            h.sound.forward.repeated rest (count + 1) [] _
          have hfurthest := hlater.furthest
          rw [(h.sound.follows r s hr hs).place_of_some hout] at htails
          simp only [Place.advance, Derivation.totalLength] at htails ⊢
          omega

theorem repeated_struck (h : exec.Refusing lib n scans) (hr : lib.Knows r) (unread : List Char)
    (count : Nat) {s : State} (hs : lib.Ready s) (hlimit : s.cursor.reachedLimit = false)
    {o : Option (List Derivation)} {e : Extent}
    (hyields : Judgement.Repeated lib.Yields count r least most s.place o e)
    (hreached : (exec.repeated r least most unread count [] s).2.cursor.reachedLimit = true) :
    (exec.repeated r least most unread count [] s).2.Struck (s.horizon e)
      (scans.repeated exec r most unread count s) := by
  by_cases hmost : most = some count
  · rw [Exec.repeated_full unread [] hmost, hlimit] at hreached
    cases hreached
  have hready := h.ready hr hs
  obtain ⟨o', e', hyield, hreach, hmore⟩ := hyields.head hmost
  cases hfirst : (exec r s).2.cursor.reachedLimit with
  | true =>
      refine h.struck_head hr hs hlimit hyield hfirst
        (Forward.repeated_head (fun _ rest _ => h.sound.forward.repeated rest) hmost [] s)
        (repeated_idle_head (fun _ rest _ => h.repeated_idle hr rest) hmost hready) hreach ?_
      unfold Tally.repeated
      rw [if_neg hmost]
      exact Nat.le_add_right _ _
  | false =>
      obtain ⟨hout, -⟩ := h.sound.faithful hr hs hyield hfirst
      cases o' with
      | none =>
          rw [Exec.repeated_none unread [] hmost hout, hfirst] at hreached
          cases hreached
      | some d =>
          by_cases hlen : d.length = 0
          · rw [Exec.repeated_empty unread [] hmost hout hlen, hfirst] at hreached
            cases hreached
          cases unread with
          | nil =>
              rw [Exec.repeated_nil [] hmost hout hlen, hfirst] at hreached
              cases hreached
          | cons c rest =>
              obtain ⟨tail, e'', htail, rfl⟩ := hmore d rfl hlen
              rw [← (h.sound.follows r s hr hs).place_of_some hout] at htail
              rw [Exec.repeated_more c rest hmost hout hlen] at hreached ⊢
              have hstruck := repeated_struck h hr rest (count + 1) hready hfirst htail hreached
              refine hstruck.mono (h.horizon_next hr hs hyield hfirst e'') fun hpos => ?_
              unfold Tally.repeated
              simp only [hmost, hout, hlen, if_false]
              omega

end Repeated

/-! ## Characters up to a rule -/

section UpTo

variable {stop : RuleRef} {stopName : Nat}

theorem ready_past (h : exec.Refusing lib n scans) (hstop : lib.Knows stop) (hs : lib.Ready s)
    {c : Char} {rest : List Char} (hrest : s.place.rest = c :: rest) :
    lib.Ready ((exec.test stop s).2.moveTo (s.place.past c rest)) := by
  refine (h.sound.test hstop hs).ready.moveTo ?_
  rw [(h.sound.forward.test stop s).source]
  exact hs.place.past hrest

theorem upTo_idle_head {rest : List Char}
    (hlater : ∀ c later, rest = c :: later → ∀ passed, (exec stop s).2.Barred →
      (exec.upTo stop later passed
        ((exec.test stop s).2.moveTo (s.place.past c later))).2.cursor.furthest =
          (exec stop s).2.cursor.furthest)
    (passed : Nat) (hbarred : (exec stop s).2.Barred) :
    (exec.upTo stop rest passed s).2.cursor.furthest = (exec stop s).2.cursor.furthest := by
  cases hout : (exec stop s).1 with
  | some d =>
      rw [Exec.upTo_found rest passed hout]
      rfl
  | none =>
      cases rest with
      | nil =>
          rw [Exec.upTo_nil passed hout]
          rfl
      | cons c later =>
          rw [Exec.upTo_cons c later passed hout]
          exact hlater c later rfl _ hbarred

theorem upTo_idle (h : exec.Refusing lib n scans) (hstop : lib.Knows stop) (rest : List Char)
    (passed : Nat) {s : State} (hs : lib.Ready s) (hrest : s.place.rest = rest)
    (hbarred : s.Barred) :
    (exec.upTo stop rest passed s).2.cursor.furthest = s.cursor.furthest := by
  have hafter {s : State} (hbarred : s.Barred) := hbarred.later (h.sound.forward stop s)
  induction rest generalizing passed s with
  | nil =>
      refine (upTo_idle_head ?_ passed (hafter hbarred)).trans (h.idle stop s hstop hs hbarred)
      nofun
  | cons c rest ih =>
      refine (upTo_idle_head ?_ passed (hafter hbarred)).trans (h.idle stop s hstop hs hbarred)
      intro c' later hcons passed hbarred
      cases hcons
      exact ih passed (h.ready_past hstop hs hrest) rfl hbarred

theorem upTo_ends (h : exec.Refusing lib n scans) (hstop : lib.Knows stop) (rest : List Char)
    (passed : Nat) {s : State} (hs : lib.Ready s) (hrest : s.place.rest = rest) :
    ∃ m, (exec.upTo stop rest passed s).1 = passed + m ∧
      (s.place.offset + m ≤ (exec.upTo stop rest passed s).2.cursor.furthest ∨
        s.place.offset + m = byteLength s.cursor.source) := by
  cases hout : (exec stop s).1 with
  | some d =>
      have hend := h.ends stop s d hout
      rw [Exec.upTo_found rest passed hout]
      exact ⟨0, rfl, .inl (Nat.le_trans (Nat.le_add_right _ d.length) hend)⟩
  | none =>
      cases rest with
      | nil =>
          rw [Exec.upTo_nil passed hout]
          obtain ⟨before, hbefore, hoffset⟩ := hs.place
          rw [hrest, List.append_nil] at hbefore
          exact ⟨0, rfl, .inr (by rw [hoffset, ← hbefore]; rfl)⟩
      | cons c rest =>
          rw [Exec.upTo_cons c rest passed hout]
          obtain ⟨m, hm, hend⟩ := upTo_ends h hstop rest (passed + c.utf8Size)
            (h.ready_past hstop hs hrest) rfl
          have hsource : (exec stop s).2.cursor.source = s.cursor.source :=
            (h.sound.forward stop s).source
          refine ⟨c.utf8Size + m, by omega, ?_⟩
          rw [← Nat.add_assoc, ← hsource]
          exact hend

theorem upTo_struck (h : exec.Refusing lib n scans) (hstop : lib.Knows stop) (rest : List Char)
    (passed : Nat) {s : State} (hs : lib.Ready s) (hrest : s.place.rest = rest)
    (hlimit : s.cursor.reachedLimit = false) {k : Nat} {e : Extent}
    (hyields : Judgement.UpTo lib.Yields s.place stop k e)
    (hreached : (exec.upTo stop rest passed s).2.cursor.reachedLimit = true) :
    (exec.upTo stop rest passed s).2.Struck (max (s.horizon e) (s.place.offset + k)) 1 := by
  obtain ⟨o', e', hyield, hreach, hmore⟩ := hyields.head
  cases hfirst : (exec stop s).2.cursor.reachedLimit with
  | true =>
      have hlater : (exec stop s).2.Later (exec.upTo stop rest passed s).2 :=
        (State.later_moveTo _ s.place).trans
          (Forward.upTo_head (fun _ later _ => h.sound.forward.upTo stop later) passed s)
      have hidle : (exec stop s).2.Barred →
          (exec.upTo stop rest passed s).2.cursor.furthest = (exec stop s).2.cursor.furthest := by
        refine upTo_idle_head (fun c later hcons passed hbarred => ?_) passed
        rw [hcons] at hrest
        exact h.upTo_idle hstop later passed (h.ready_past hstop hs hrest) rfl hbarred
      have hstruck :=
        h.struck_head hstop hs hlimit hyield hfirst hlater hidle hreach (Nat.le_refl _)
      exact hstruck.mono (Nat.le_max_left _ _) fun _ => Nat.one_pos
  | false =>
      obtain ⟨hout, hfurthest⟩ := h.sound.faithful hstop hs hyield hfirst
      cases o' with
      | some d =>
          rw [Exec.upTo_found rest passed hout, Exec.test_snd] at hreached
          exact absurd (hfirst.symm.trans hreached) Bool.false_ne_true
      | none =>
          cases rest with
          | nil =>
              rw [Exec.upTo_nil passed hout, Exec.test_snd] at hreached
              exact absurd (hfirst.symm.trans hreached) Bool.false_ne_true
          | cons c rest =>
              obtain ⟨k', e'', htail, rfl, rfl⟩ := hmore rfl c rest hrest
              rw [Exec.upTo_cons c rest passed hout] at hreached ⊢
              -- The character passed over is one of those that the scan passes over without limits.
              have hstruck := upTo_struck h hstop rest (passed + c.utf8Size)
                (h.ready_past hstop hs hrest) rfl hfirst htail hreached
              refine hstruck.mono ?_ id
              change max (max (max (exec stop s).2.cursor.furthest e''.reach)
                (s.place.offset + c.utf8Size)) (s.place.offset + c.utf8Size + k') ≤ _
              rw [hfurthest]
              simp only [State.horizon, Extent.andThen]
              omega

theorem perform_upTo_struck (h : exec.Refusing lib n scans) (hstop : lib.Knows (r.sibling stopName))
    (hs : lib.Ready s) (hlimit : s.cursor.reachedLimit = false) {k : Nat} {e : Extent}
    (hyields : Judgement.UpTo lib.Yields s.place (r.sibling stopName) k e)
    (hreached : (exec.perform r s (.upTo stopName)).2.cursor.reachedLimit = true) :
    ((exec.perform r s (.upTo stopName)).2.leave.settle s.place
      (exec.perform r s (.upTo stopName)).1).2.Struck
        (s.horizon (e.around s.place (if 0 < k then some (.branch r k []) else none))) 1 := by
  obtain ⟨m, hm, hend⟩ := h.upTo_ends hstop s.place.rest 0 hs rfl
  rw [Nat.zero_add] at hm
  have hbound : max (s.horizon e) (s.place.offset + k) ≤
      s.horizon (e.around s.place (if 0 < k then some (.branch r k []) else none)) := by
    split
    · change _ ≤ max (max s.cursor.furthest (max e.reach (s.place.offset + k))) s.place.offset
      simp only [State.horizon]
      omega
    · change _ ≤ max (max s.cursor.furthest e.reach) s.place.offset
      simp only [State.horizon]
      omega
  have hscan := h.upTo_struck hstop s.place.rest 0 hs rfl hlimit hyields hreached
  have hstruck := (hscan.later (State.later_moveTo _ s.place) rfl).mono hbound id
  rw [perform_upTo_fst hm]
  split
  · -- The scan ended where its rule matched, or ran on to the end of the text.
    rcases hend with hend | hend
    · refine hstruck.settle (s.le_horizon _) fun d hd => ?_
      cases hd
      exact Nat.le_trans hend (Nat.le_max_right _ _)
    · refine hstruck.settle_end ?_ Nat.one_pos
      rw [← (h.sound.forward.perform r s (.upTo stopName)).source] at hend
      exact hend
  · exact hstruck.settle (s.le_horizon _) nofun

end UpTo

/-! ## Executions -/

theorem perform_struck (h : exec.Refusing lib n scans) {kind : Kind RuleRef}
    (htargets : ∀ t ∈ kind.targets r, lib.Knows t) (hs : lib.Ready s)
    (hlimit : s.cursor.reachedLimit = false) {o : Option Derivation} {e : Extent}
    (hyields : Judgement.Performed lib.Yields kind r s.place o e)
    (hreached : (exec.perform r s kind).2.cursor.reachedLimit = true) :
    ((exec.perform r s kind).2.leave.settle s.place (exec.perform r s kind).1).2.Struck
      (s.horizon (e.around s.place o)) (scans.cutIn exec r s kind) := by
  have hhorizon := s.horizon_around e s.place o
  have hplace := s.le_horizon (e.around s.place o)
  cases hyields with
  | terminal | text =>
      rw [show s.cursor.reachedLimit = true from hreached] at hlimit
      cases hlimit
  | @sequence parts _ _ _ _ hparts =>
      have hknows : ∀ part ∈ parts.map r.sibling, lib.Knows part :=
        fun part hpart => htargets part (List.mem_append_left _ hpart)
      refine ((h.all_struck hknows hs hlimit hparts hreached).mono hhorizon id).settle hplace ?_
      intro d hd
      obtain ⟨ds, hds, rfl⟩ := Option.map_eq_some_iff.1 hd
      exact h.all_ends hknows hs ds hds
  | @choice options _ _ _ _ hoptions =>
      have hknows : ∀ option ∈ options.map r.sibling, lib.Knows option :=
        fun option hoption => htargets option (List.mem_append_left _ hoption)
      refine ((h.firstOf_struck hknows hs hlimit hoptions hreached).mono hhorizon id).settle
        hplace ?_
      intro d hd
      obtain ⟨inner, hinner, rfl⟩ := Option.map_eq_some_iff.1 hd
      exact Nat.le_trans (h.firstOf_ends hknows hs inner hinner) (Nat.le_max_right _ _)
  | @rep body least most _ _ _ _ hrounds =>
      have hbody : lib.Knows (r.sibling body) := htargets _ List.mem_cons_self
      refine ((h.repeated_struck hbody s.place.rest 0 hs hlimit hrounds hreached).mono
        hhorizon id).settle hplace ?_
      intro d hd
      obtain ⟨ds, hds, rfl⟩ := Option.map_eq_some_iff.1 hd
      exact h.repeated_ends hbody s.place.rest 0 hs ds hds
  | ahead hbody =>
      have hstruck := h.struck _ s _ _ (htargets _ List.mem_cons_self) hs hlimit hbody hreached
      refine ((hstruck.later (State.later_moveTo _ s.place) rfl).mono hhorizon id).settle hplace ?_
      intro d hd
      rw [perform_ahead_fst] at hd
      obtain ⟨_, _, rfl⟩ := Option.map_eq_some_iff.1 hd
      exact Nat.le_max_left _ _
  | notAhead hbody =>
      have hstruck := h.struck _ s _ _ (htargets _ List.mem_cons_self) hs hlimit hbody hreached
      refine ((hstruck.later (State.later_moveTo _ s.place) rfl).mono hhorizon id).settle hplace ?_
      intro d hd
      rw [perform_notAhead_fst, Option.mem_def] at hd
      split at hd
      · cases hd
      · cases hd
        exact Nat.le_max_left _ _
  | @upTo stop _ _ _ _ hscan =>
      have hone : scans.cutIn exec r s (.upTo stop) = 1 := by simp [Tally.cutIn, hlimit, hreached]
      rw [hone]
      exact h.perform_upTo_struck (htargets _ List.mem_cons_self) hs hlimit hscan hreached
  | ref hinner | inherited hinner | label hinner =>
      have hknows := htargets _ List.mem_cons_self
      refine ((h.struck _ s _ _ hknows hs hlimit hinner hreached).mono hhorizon id).settle hplace ?_
      intro d hd
      obtain ⟨inner, hinner, rfl⟩ := Option.map_eq_some_iff.1 hd
      exact Nat.le_trans (h.ends _ s inner hinner) (Nat.le_max_right _ _)

theorem struck_of_refused {t : State} {e : Extent} {count : Nat} (hbarred : t.Barred)
    (hfurthest : t.cursor.furthest = s.cursor.furthest) : t.Struck (s.horizon e) count := by
  refine ⟨hbarred, .inl ?_⟩
  unfold State.horizon
  omega

theorem barred_refuseNesting (s : State) : s.refuseNesting.Barred :=
  .inr (bne_iff_ne.2 (Nat.succ_ne_zero _))

theorem limited_none : (Exec.limited lib none).Refusing lib 0 (.cutLimited lib none) where
  sound := Sound.limited_none
  ends r s d hout := by
    unfold Exec.limited at hout
    split at hout <;> cases hout
  idle r s _ _ _ := by
    unfold Exec.limited
    split <;> rfl
  struck r s o e _ _ _ _ _ := by
    cases hcalls : s.cursor.calls.isSpent with
    | true =>
        rw [Exec.limited_of_isSpent none hcalls]
        exact struck_of_refused (.inl hcalls) rfl
    | false =>
        rw [Exec.limited_none hcalls]
        exact struck_of_refused (barred_refuseNesting _) rfl

theorem end_le_settle (t : State) (p : Place) {outcome : Option Derivation} {d : Derivation}
    (hout : outcome = some d) :
    p.offset + d.length ≤ (t.leave.settle p outcome).2.cursor.furthest := by
  subst hout
  exact Nat.le_max_right _ _

theorem limited_some (h : exec.Refusing lib n scans) (hclosed : lib.Closed) :
    (Exec.limited lib (some exec)).Refusing lib (n + 1) (.cutLimited lib (some (scans, exec))) where
  sound := h.sound.limited_some hclosed
  ends r s d hout := by
    cases hcalls : s.cursor.calls.isSpent with
    | true =>
        rw [Exec.limited_of_isSpent (some exec) hcalls] at hout
        cases hout
    | false =>
        cases hnesting : s.cursor.nesting.exceeded with
        | true =>
            rw [Exec.limited_of_exceeded hcalls hnesting] at hout
            cases hout
        | false =>
            cases hrule : lib.rule? r with
            | none =>
                rw [Exec.limited_of_rule_none hcalls hnesting hrule] at hout
                cases hout
            | some rule =>
                rw [Exec.limited_of_rule hcalls hnesting hrule] at hout ⊢
                rw [State.settle_fst] at hout
                exact end_le_settle _ s.place hout
  idle r s _ _ hbarred := by
    cases hcalls : s.cursor.calls.isSpent with
    | true =>
        rw [Exec.limited_of_isSpent (some exec) hcalls]
        rfl
    | false =>
        rcases hbarred with hspent | hexceeded
        · rw [hcalls] at hspent
          cases hspent
        · rw [Exec.limited_of_exceeded hcalls hexceeded]
          rfl
  struck r s o e hr hs hlimit hyields hreached := by
    obtain ⟨-, hnesting⟩ := Cursor.reachedLimit_eq_false_iff.1 hlimit
    cases hcalls : s.cursor.calls.isSpent with
    | true =>
        rw [Exec.limited_of_isSpent (some exec) hcalls]
        exact struck_of_refused (.inl hcalls) rfl
    | false =>
        cases hyields with
        | @intro _ rule _ _ e hrule hperformed =>
            have hstart : lib.Ready s.spendCall.enter := hs.change_cursor rfl rfl rfl rfl
            have htally : Tally.cutLimited lib (some (scans, exec)) r s =
                scans.cutIn exec r s.spendCall.enter rule.kind := by
              unfold Tally.cutLimited
              simp only [hcalls, hnesting, hrule]
              rfl
            rw [Exec.limited_of_rule hcalls hnesting hrule] at hreached ⊢
            rw [State.reachedLimit_settle] at hreached
            rw [htally]
            exact h.perform_struck (hclosed.targets r rule hrule) hstart hlimit hperformed hreached

theorem memoized (h : exec.Refusing lib n scans) :
    (Exec.memoized exec).Refusing lib n scans.cutMemoized where
  sound := h.sound.memoized
  ends r s d hout := by
    cases hmemo : s.memo with
    | none =>
        rw [Exec.memoized_of_none hmemo] at hout ⊢
        exact h.ends r s d hout
    | some memo =>
        rcases hhit : memo.outcome? r s.place.offset with _ | _ | d'
        · rw [Exec.memoized_of_miss hmemo hhit] at hout ⊢
          rw [State.learn_cursor]
          exact h.ends r s.countMiss d hout
        · rw [Exec.memoized_of_failure_hit hmemo hhit] at hout
          cases hout
        · rw [Exec.memoized_of_hit hmemo hhit] at hout ⊢
          cases hout
          exact Nat.le_max_right _ _
  idle r s hr hs hbarred := by
    cases hmemo : s.memo with
    | none =>
        rw [Exec.memoized_of_none hmemo]
        exact h.idle r s hr hs hbarred
    | some memo =>
        rcases hhit : memo.outcome? r s.place.offset with _ | _ | d
        · rw [Exec.memoized_of_miss hmemo hhit, State.learn_cursor]
          exact h.idle r s.countMiss hr hs.countMiss hbarred
        · rw [Exec.memoized_of_failure_hit hmemo hhit]
          rfl
        · rw [Exec.memoized_of_hit hmemo hhit]
          obtain ⟨e, hyields, hreach⟩ := Sound.holds_of_recorded hs hmemo hhit
          exact Nat.max_eq_left (Nat.le_trans hyields.end_le_reach hreach)
  struck r s o e hr hs hlimit hyields hreached := by
    cases hmemo : s.memo with
    | none =>
        have hmiss : s.countMiss = s := by
          obtain ⟨cursor, memo, replays⟩ := s
          cases hmemo
          rfl
        have htally : scans.cutMemoized r s = scans r s := by
          unfold Tally.cutMemoized
          rw [hmemo, hmiss]
          rfl
        rw [Exec.memoized_of_none hmemo] at hreached ⊢
        rw [htally]
        exact h.struck r s o e hr hs hlimit hyields hreached
    | some memo =>
        rcases hhit : memo.outcome? r s.place.offset with _ | _ | d
        · have htally : scans.cutMemoized r s = scans r s.countMiss := by
            unfold Tally.cutMemoized
            rw [hmemo, Option.bind_some, hhit]
          rw [Exec.memoized_of_miss hmemo hhit] at hreached ⊢
          rw [State.learn_cursor] at hreached
          rw [htally]
          have hstruck := h.struck r s.countMiss o e hr hs.countMiss hlimit hyields hreached
          exact hstruck.of_cursor_eq (State.learn_cursor _ _ _)
        · rw [Exec.memoized_of_failure_hit hmemo hhit] at hreached
          exact absurd (hlimit.symm.trans hreached) Bool.false_ne_true
        · rw [Exec.memoized_of_hit hmemo hhit] at hreached
          exact absurd (hlimit.symm.trans hreached) Bool.false_ne_true

end Refusing

end Exec

/-- Every run of a rule of the library that is refused something gets no further than the outcome of
the rule reaches, unless a scan is cut short. -/
theorem Library.exec_refusing {lib : Library} (h : lib.Closed) (room : Nat) :
    (lib.exec room).Refusing lib room (lib.cutScans room) := by
  induction room with
  | zero => exact Exec.Refusing.limited_none.memoized
  | succ room ih => exact (ih.limited_some h).memoized

end Peg
