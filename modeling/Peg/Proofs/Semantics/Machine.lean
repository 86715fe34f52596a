import Peg.Proofs.Engine.Machine
import Peg.Proofs.Engine.Tape

/-!
# Runs pass every check

In a library that was built no check of the machine is ever missed, under any limits and also after a
limit was exceeded: an execution ends, and it ends as `Library.writer` says. Main statement:
`Library.execute_eq`.
-/

namespace Peg

/-- The tape is where a run over its text can be. -/
def Tape.Inside (lib : Library) (t : Tape) : Prop := ∃ s, t.Shows s ∧ lib.Inside s

/-- What an execution keeps to: the cursor goes behind the match or stays, inside the text and at the
same depth, and nothing is lost from the buffer. -/
structure Tape.Steps (lib : Library) (t : Tape) (result : Option Nat × Tape) : Prop where
  inside : result.2.Inside lib
  level : t.cursor.Level result.2.cursor
  splits : ∀ n ∈ result.1, Splits n t.place.rest
  place : result.2.place = result.1.elim t.place t.place.advance
  size : t.events.size ≤ result.2.events.size

theorem exists_of_map_val {α : Type} {p : α → Prop} {run : Option (Subtype p)} {result : α}
    (h : run.map Subtype.val = some result) : ∃ hp, run = some ⟨result, hp⟩ := by
  obtain ⟨⟨_, hp⟩, rfl, rfl⟩ := Option.map_eq_some_iff.1 h
  exact ⟨hp, rfl⟩

namespace Tape

variable {lib : Library} {t t' : Tape}

namespace Inside

theorem isIn (ht : t.Inside lib) : t.place.IsIn t.cursor.source := by
  obtain ⟨s, hshows, hinside⟩ := ht
  rw [hshows.place, hshows.cursor]
  exact hinside.ready.place

theorem withEvents (ht : t.Inside lib) (events : Array Event) : (t.withEvents events).Inside lib := by
  obtain ⟨s, hshows, hinside⟩ := ht
  exact ⟨s, hshows.withEvents events, hinside⟩

theorem moveTo (ht : t.Inside lib) {p : Place} (hp : p.IsIn t.cursor.source) :
    (t.moveTo p).Inside lib := by
  obtain ⟨s, hshows, hinside⟩ := ht
  rw [hshows.cursor] at hp
  exact ⟨_, hshows.moveTo p, hinside.moveTo hp⟩

theorem countMiss (ht : t.Inside lib) : t.countMiss.Inside lib := by
  obtain ⟨s, hshows, hinside⟩ := ht
  exact ⟨_, hshows.countMiss, hinside.ready.countMiss, hinside.furthest⟩

theorem spendCall (ht : t.Inside lib) : t.spendCall.Inside lib := by
  obtain ⟨s, hshows, hinside⟩ := ht
  exact ⟨_, hshows.spendCall, hinside.ready.change_cursor rfl rfl rfl rfl, hinside.furthest⟩

theorem enter (ht : t.Inside lib) : t.enter.Inside lib := by
  obtain ⟨s, hshows, hinside⟩ := ht
  exact ⟨_, hshows.enter, hinside.ready.change_cursor rfl rfl rfl rfl, hinside.furthest⟩

end Inside

/-! ## Checks that are passed -/

theorem placeAt?_eq_some {p : Place} (hp : p.IsIn t.cursor.source) {offset : Nat}
    (hoffset : p.offset = offset) : ∃ h, t.placeAt? offset = some ⟨p, h⟩ := by
  have hat : Place.at? t.cursor.source offset = some p := Place.at?_eq_some_iff.2 ⟨hp, hoffset⟩
  refine ⟨⟨hoffset, hp.offset_le⟩, ?_⟩
  unfold placeAt?
  split
  · next hnone =>
      rw [hat] at hnone
      cases hnone
  · next q hq =>
      rw [hat] at hq
      cases hq
      rfl

namespace Inside

theorem placeAt?_advance (ht : t.Inside lib) {n : Nat} (hn : Splits n t.place.rest) :
    ∃ h, t.placeAt? (t.place.offset + n) = some ⟨t.place.advance n, h⟩ :=
  placeAt?_eq_some (ht.isIn.advance hn) rfl

theorem placeAt?_offset (ht : t.Inside lib) :
    ∃ h, t.placeAt? t.place.offset = some ⟨t.place, h⟩ :=
  placeAt?_eq_some ht.isIn rfl

theorem rest? (ht : t.Inside lib) : t.rest? = some t.place.rest := by
  have hat : Place.at? t.cursor.source t.cursor.offset = some t.place :=
    Place.at?_eq_some_iff.2 ⟨ht.isIn, rfl⟩
  rw [Tape.rest?, hat]
  rfl

end Inside

namespace Steps

theorem rest_length_lt {n : Nat} (h : t.Steps lib (some n, t')) (hn : n ≠ 0) :
    t'.place.rest.length < t.place.rest.length := by
  have hplace : t'.place = t.place.advance n := h.place
  rw [hplace]
  exact length_dropBytes_lt (h.splits n rfl) hn

theorem offset_eq {n : Nat} (h : t.Steps lib (some n, t')) :
    t'.cursor.offset = t.cursor.offset + n := by
  have hplace : t'.place = t.place.advance n := h.place
  exact congrArg Place.offset hplace

theorem offset_le {n : Nat} (h : t.Steps lib (some n, t')) :
    t.cursor.offset + n ≤ byteLength t.cursor.source := by
  have hle := h.inside.isIn.offset_le
  have hsource : t'.cursor.source = t.cursor.source := h.level.source
  rw [← h.offset_eq, ← hsource]
  exact hle

end Steps

end Tape

namespace Writer

variable {lib : Library} {write : Writer} {exec : Exec} {r : RuleRef} {t : Tape}

theorem Writes.steps {n : Nat} (h : write.Writes exec) (hexec : exec.Deriving lib n)
    (hr : lib.Knows r) (ht : t.Inside lib) : t.Steps lib (write r t) := by
  obtain ⟨s, hshows, hinside⟩ := ht
  have hwrote := h r hshows
  have hfollows := hexec.sound.follows r s hr hinside.ready
  have hlater := hexec.sound.forward r s
  have hcursor := hwrote.shows.cursor
  have hevents := hwrote.events
  have hlength := hwrote.length
  have hplace := hfollows.place
  rw [← hwrote.shows.place, ← hshows.place] at hplace
  refine ⟨⟨_, hwrote.shows, hexec.inside hr hinside⟩, ⟨?_, ?_, ?_⟩, fun n hn => ?_, ?_, ?_⟩
  · rw [hcursor, hshows.cursor]
    exact hlater.source
  · rw [hcursor, hshows.cursor]
    exact hlater.nestingLimit
  · rw [hcursor, hshows.cursor]
    exact hlater.depth
  · rw [hlength] at hn
    obtain ⟨d, hd, rfl⟩ := Option.map_eq_some_iff.1 hn
    rw [hshows.place]
    exact hfollows.splits d hd
  · rw [hplace, hlength]
    cases (exec r s).1 <;> rfl
  · rw [hevents]
    cases (exec r s).1 with
    | none => exact Nat.le_refl _
    | some d => simp [Derivation.emit_eq_append]

/-! ## Loops -/

/-- With so much room, the machine runs rules as the writer does. -/
structure Executed (lib : Library) (room : Nat) (write : Writer) : Prop where
  steps : ∀ r (t : Tape), lib.Knows r → t.Inside lib → t.Steps lib (write r t)
  runs : ∀ r (t : Tape), lib.Knows r → t.Inside lib → t.cursor.room = room →
    (lib.execute r t).map Subtype.val = some (write r t)

namespace Executed

variable {room : Nat}

theorem run_cases (h : write.Executed lib room) (hr : lib.Knows r) (ht : t.Inside lib)
    (hroom : t.cursor.room = room) :
    ∃ t', t'.Inside lib ∧ t'.cursor.room = room ∧
      ((∃ n hmoves, write r t = (some n, t') ∧ lib.execute r t = some ⟨(some n, t'), hmoves⟩ ∧
          t.Steps lib (some n, t')) ∨
        ∃ hmoves, write r t = (none, t') ∧ lib.execute r t = some ⟨(none, t'), hmoves⟩) := by
  obtain ⟨hmoves, hrun⟩ := exists_of_map_val (h.runs r t hr ht hroom)
  have hsteps := h.steps r t hr ht
  rcases hw : write r t with ⟨result, t'⟩
  simp only [hw] at hrun hsteps
  refine ⟨t', hsteps.inside, hsteps.level.room.trans hroom, ?_⟩
  cases result with
  | none => exact .inr ⟨_, rfl, hrun⟩
  | some n => exact .inl ⟨n, _, rfl, hrun, hsteps⟩

/-- The bytes matched do not outnumber those before the cursor. -/
theorem all (h : write.Executed lib room) {rs : List RuleRef} (hrs : ∀ r ∈ rs, lib.Knows r)
    {length : Nat} (ht : t.Inside lib) (hroom : t.cursor.room = room)
    (hlength : length ≤ t.cursor.offset) :
    (lib.executeAll rs length t).map Subtype.val = some (write.all rs length t) := by
  induction rs generalizing length t with
  | nil =>
      rw [Library.executeAll, Writer.all]
      rfl
  | cons r rs ih =>
      obtain ⟨hr, hrs⟩ := List.forall_mem_cons.1 hrs
      rw [Library.executeAll, Writer.all]
      obtain ⟨t', ht', hroom', ⟨n, hmoves, hw, hrun, hsteps⟩ | ⟨hmoves, hw, hrun⟩⟩ :=
        h.run_cases hr ht hroom
      · have hle := hsteps.offset_le
        have hsum : sumWithin? (byteLength t.cursor.source) length n = some (length + n) :=
          sumWithin?_eq_some (by omega)
        have hlength' : length + n ≤ t'.cursor.offset := by
          rw [hsteps.offset_eq]
          omega
        obtain ⟨hlevel, hrest⟩ := exists_of_map_val (ih hrs ht' hroom' hlength')
        simp only [hrun, hw, Option.bind_eq_bind, Option.bind_some, hsum, hrest, Option.map_some]
      · simp only [hrun, hw, Option.bind_eq_bind, Option.bind_some, Option.map_some]

theorem firstOf (h : write.Executed lib room) {rs : List RuleRef} (hrs : ∀ r ∈ rs, lib.Knows r)
    (ht : t.Inside lib) (hroom : t.cursor.room = room) :
    (lib.executeFirst rs t).map Subtype.val = some (write.firstOf rs t) := by
  induction rs generalizing t with
  | nil =>
      rw [Library.executeFirst, Writer.firstOf]
      rfl
  | cons r rs ih =>
      obtain ⟨hr, hrs⟩ := List.forall_mem_cons.1 hrs
      rw [Library.executeFirst, Writer.firstOf]
      obtain ⟨t', ht', hroom', ⟨n, hmoves, hw, hrun, -⟩ | ⟨hmoves, hw, hrun⟩⟩ :=
        h.run_cases hr ht hroom
      · simp only [hrun, hw, Option.bind_eq_bind, Option.bind_some, Option.map_some]
      · obtain ⟨hlevel, hrest⟩ := exists_of_map_val (ih hrs ht' hroom')
        simp only [hrun, hw, Option.bind_eq_bind, Option.bind_some, hrest, Option.map_some]

/-- Every round that reads something goes on behind at least one more byte. So neither the rounds nor
the bytes read outnumber those before the cursor, and there is always a character left to account for
the round. -/
theorem repeated (h : write.Executed lib room) (hr : lib.Knows r) (least : Nat) (most : Option Nat)
    (unread : List Char) {count length : Nat} {t : Tape} (ht : t.Inside lib)
    (hroom : t.cursor.room = room) (hunread : t.place.rest.length ≤ unread.length)
    (hcount : count ≤ t.cursor.offset) (hlength : length ≤ t.cursor.offset) :
    (lib.executeRounds r least most count length t).map Subtype.val =
      some (write.repeated r least most unread count length t) := by
  rw [Library.executeRounds]
  unfold Writer.repeated
  by_cases hmost : most.any (· ≤ count) = true
  · rw [if_pos hmost, if_pos hmost]
    rfl
  rw [if_neg hmost, if_neg hmost]
  obtain ⟨t', ht', hroom', ⟨n, hmoves, hw, hrun, hsteps⟩ | ⟨hmoves, hw, hrun⟩⟩ :=
    h.run_cases hr ht hroom
  · cases n with
    | zero =>
        rw [hrun, hw]
        rfl
    | succ n =>
        have hle := hsteps.offset_le
        have hoffset := hsteps.offset_eq
        have hlt := hsteps.rest_length_lt (Nat.succ_ne_zero n)
        have hsum : sumWithin? (byteLength t.cursor.source) length (n + 1) =
            some (length + (n + 1)) := sumWithin?_eq_some (by omega)
        have hnext : sumWithin? (byteLength t.cursor.source) count 1 = some (count + 1) :=
          sumWithin?_eq_some (by omega)
        cases unread with
        | nil =>
            simp only [List.length_nil] at hunread
            omega
        | cons c unread =>
            simp only [List.length_cons] at hunread
            have hrounds :
                (lib.executeRounds r least most (count + 1) (length + (n + 1)) t').map Subtype.val =
                  some (write.repeated r least most unread (count + 1) (length + (n + 1)) t') :=
              repeated h hr least most unread ht' hroom' (by omega) (by omega) (by omega)
            obtain ⟨hlevel, hrest⟩ := exists_of_map_val hrounds
            simp only [hrun, hw, Option.bind_eq_bind, Option.bind_some, hsum, hnext, hrest,
              Option.map_some, Nat.succ_ne_zero, if_false]
  · simp only [hrun, hw, Option.bind_eq_bind, Option.bind_some, Option.map_some]

theorem test (h : write.Executed lib room) (hr : lib.Knows r) (ht : t.Inside lib)
    (hroom : t.cursor.room = room) :
    (write.test r t).2.Inside lib ∧ (write.test r t).2.place = t.place ∧
      (lib.executeTest r t).map Subtype.val = some (write.test r t) := by
  obtain ⟨hmoves, hrun⟩ := exists_of_map_val (h.runs r _ hr (ht.withEvents #[]) hroom)
  have hsteps := h.steps r _ hr (ht.withEvents #[])
  obtain ⟨hp, hback⟩ := ht.placeAt?_offset
  have hplace : t.place.IsIn (write r (t.withEvents #[])).2.cursor.source := by
    rw [hsteps.level.source]
    exact ht.isIn
  refine ⟨(hsteps.inside.moveTo hplace).withEvents _, rfl, ?_⟩
  rw [Library.executeTest, hrun]
  simp only [Option.bind_eq_bind, Option.bind_some, hback]
  rfl

theorem test_cases (h : write.Executed lib room) (hr : lib.Knows r) (ht : t.Inside lib)
    (hroom : t.cursor.room = room) :
    ∃ result t' hback, t'.Inside lib ∧ t'.cursor.room = room ∧ t'.place = t.place ∧
      write.test r t = (result, t') ∧ lib.executeTest r t = some ⟨(result, t'), hback⟩ := by
  obtain ⟨ht', hplace, htest⟩ := h.test hr ht hroom
  obtain ⟨hback, hrun⟩ := exists_of_map_val htest
  exact ⟨_, _, hback, ht', hback.1.room.trans hroom, hplace, rfl, hrun⟩

theorem upTo (h : write.Executed lib room) {stop : RuleRef} (hstop : lib.Knows stop)
    {start passed : Nat} {rest : List Char} {t : Tape} (ht : t.Inside lib)
    (hroom : t.cursor.room = room) (hrest : t.place.rest = rest)
    (hstart : t.cursor.offset = start + passed) :
    (lib.executeUpTo stop start passed t hstart).map Subtype.val =
      some (write.upTo stop rest passed t) := by
  obtain ⟨result, t', hback, ht', hroom', hplace, hw, hrun⟩ := h.test_cases hstop ht hroom
  rw [Library.executeUpTo]
  unfold Writer.upTo
  rw [hw, hrun]
  cases result with
  | some n => rfl
  | none =>
      have hrest' : t'.rest? = some rest := by rw [ht'.rest?, hplace, hrest]
      cases rest with
      | nil => simp only [Option.bind_eq_bind, Option.bind_some, hrest', Option.map_some]
      | cons c rest =>
          have hpast : (t.place.past c rest).IsIn t.cursor.source := ht.isIn.past hrest
          have hoffset : (t.place.past c rest).offset = start + (passed + c.utf8Size) := by
            rw [← Nat.add_assoc, ← hstart]
            rfl
          obtain ⟨hp, hat⟩ := Tape.placeAt?_eq_some hpast hoffset
          have hpast' : (t.place.past c rest).IsIn t'.cursor.source := by
            have hsource : t'.cursor.source = t.cursor.source := hback.1.source
            rw [hsource]
            exact hpast
          obtain ⟨hlevel, hnext⟩ :=
            exists_of_map_val (upTo h hstop (ht'.moveTo hpast') hroom' rfl hp.1)
          simp only [Option.bind_eq_bind, Option.bind_some, hrest', hat, hplace, hnext,
            Option.map_some]
          rfl

/-! ## Executions -/

theorem around_eq_finish (t : Tape) (r : RuleRef) (parts : Tape → Option Nat × Tape) :
    t.around r parts = (parts (t.push (.opened r))).2.finish t.events.size
      (parts (t.push (.opened r))).1 := by
  unfold Tape.around
  rcases parts (t.push (.opened r)) with ⟨_ | length, t'⟩ <;> rfl

theorem perform (h : write.Executed lib room) {kind : Kind RuleRef}
    (htargets : ∀ target ∈ kind.targets r, lib.Knows target)
    (hbound : ∀ target ∈ kind.referred,
      (lib.bound? r.grammar kind).bind (lib.resolve? r.grammar) = some target)
    (ht : t.Inside lib) (hroom : t.cursor.room = room) :
    (lib.performRule r t kind).map Subtype.val = some (write.perform r t kind) := by
  have hopened : (t.push (.opened r)).Inside lib := ht.withEvents _
  rw [Library.performRule.eq_def]
  cases kind with
  | terminal matcher =>
      simp only [ht.rest?, Option.bind_eq_bind, Option.bind_some, Writer.perform]
      cases matcher.matchAt t.place.rest <;> rfl
  | text literal ignoreCase =>
      simp only [ht.rest?, Option.bind_eq_bind, Option.bind_some, Writer.perform]
      cases literalAt (if ignoreCase then sameLower else (· == ·)) literal t.place.rest <;> rfl
  | sequence parts =>
      have hparts : ∀ part ∈ parts.map r.sibling, lib.Knows part :=
        fun part hpart => htargets part (List.mem_append_left _ hpart)
      obtain ⟨hlevel, hrun⟩ := exists_of_map_val (h.all hparts hopened hroom (Nat.zero_le _))
      simp only [hrun, Option.bind_eq_bind, Option.bind_some, Option.map_some, Writer.perform,
        around_eq_finish]
  | choice options =>
      have hoptions : ∀ option ∈ options.map r.sibling, lib.Knows option :=
        fun option hoption => htargets option (List.mem_append_left _ hoption)
      obtain ⟨hlevel, hrun⟩ := exists_of_map_val (h.firstOf hoptions hopened hroom)
      simp only [hrun, Option.bind_eq_bind, Option.bind_some, Option.map_some, Writer.perform,
        around_eq_finish]
  | rep body least most =>
      have hbody : lib.Knows (r.sibling body) := htargets _ List.mem_cons_self
      obtain ⟨hlevel, hrun⟩ := exists_of_map_val (h.repeated hbody least most t.place.rest hopened
        hroom (Nat.le_refl _) (Nat.zero_le _) (Nat.zero_le _))
      simp only [hrun, Option.bind_eq_bind, Option.bind_some, Option.map_some, Writer.perform,
        around_eq_finish]
  | ahead body =>
      obtain ⟨result, t', hback, -, -, -, hw, hrun⟩ :=
        h.test_cases (htargets _ List.mem_cons_self) ht hroom
      simp only [hrun, Option.bind_eq_bind, Option.bind_some, Writer.perform, hw]
      cases result <;> rfl
  | notAhead body =>
      obtain ⟨result, t', hback, -, -, -, hw, hrun⟩ :=
        h.test_cases (htargets _ List.mem_cons_self) ht hroom
      simp only [hrun, Option.bind_eq_bind, Option.bind_some, Writer.perform, hw]
      cases result <;> rfl
  | upTo stop =>
      have hstop : lib.Knows (r.sibling stop) := htargets _ List.mem_cons_self
      have hpassed : (lib.executeUpTo (r.sibling stop) t.place.offset 0 t rfl).map Subtype.val =
          some (write.upTo (r.sibling stop) t.place.rest 0 t) :=
        h.upTo hstop ht hroom rfl (Nat.add_zero _).symm
      obtain ⟨hlevel, hrun⟩ := exists_of_map_val hpassed
      obtain ⟨hp, hback⟩ := ht.placeAt?_offset
      simp only [hrun, hback, Option.bind_eq_bind, Option.bind_some, Writer.perform]
      split <;> rfl
  | ref name target =>
      have hfound := hbound target rfl
      have htarget : lib.Knows target :=
        htargets target (List.mem_append_right _ List.mem_cons_self)
      obtain ⟨hmoves, hrun⟩ := exists_of_map_val (h.runs target _ htarget hopened hroom)
      simp only [hfound, hrun, Option.bind_eq_bind, Option.bind_some, Option.map_some,
        Writer.perform, around_eq_finish]
  | inherited name target =>
      have hfound := hbound target rfl
      have htarget : lib.Knows target :=
        htargets target (List.mem_append_right _ List.mem_cons_self)
      obtain ⟨hmoves, hrun⟩ := exists_of_map_val (h.runs target _ htarget hopened hroom)
      simp only [hfound, hrun, Option.bind_eq_bind, Option.bind_some, Option.map_some,
        Writer.perform, around_eq_finish]
  | label body =>
      have hbody : lib.Knows (r.sibling body) := htargets _ List.mem_cons_self
      obtain ⟨hmoves, hrun⟩ := exists_of_map_val (h.runs _ _ hbody hopened hroom)
      simp only [hrun, Option.bind_eq_bind, Option.bind_some, Option.map_some, Writer.perform,
        around_eq_finish]

end Executed

/-! ## Limits -/

theorem spendCall?_eq_some (h : ¬ t.cursor.calls.isSpent = true) :
    t.spendCall? = some ⟨t.spendCall, rfl⟩ := by
  refine if_pos ?_
  unfold CallBudget.isSpent at h
  cases hlimit : t.cursor.calls.limit with
  | none => rfl
  | some limit =>
      simp only [hlimit, Option.any_some, decide_eq_true_eq] at h
      simp only [Option.all_some, decide_eq_true_eq]
      omega

theorem enter?_eq_some {room : Nat} (h : t.cursor.room = room + 1) :
    t.enter.cursor.room = room ∧ ∃ hinner, t.enter? = some ⟨t.enter, hinner⟩ := by
  simp only [Cursor.room, Nesting.room] at h
  refine ⟨?_, ?_⟩
  · simp only [Cursor.room, Nesting.room, Tape.enter, Nesting.enter]
    omega
  · have hle : t.cursor.nesting.depth + 1 ≤ t.cursor.nesting.limit := by omega
    unfold Tape.enter?
    rw [dif_pos hle]
    exact ⟨_, rfl⟩

theorem leave?_eq_some {t' : Tape} (h : t.enter.cursor.Level t'.cursor) :
    t'.leave? = some ⟨t'.leave, rfl⟩ := by
  have hdepth : t'.cursor.nesting.depth = t.cursor.nesting.depth + 1 := h.depth
  unfold Tape.leave?
  rw [if_pos (by omega)]

theorem executeRule_none {rule : Rule RuleRef} (hroom : t.cursor.room = 0) :
    (lib.executeRule r rule t).map Subtype.val = some (Writer.limited lib none r t) := by
  rw [Library.executeRule, Writer.limited]
  by_cases hspent : t.cursor.calls.isSpent = true
  · rw [if_pos hspent, if_pos hspent]
    rfl
  have hle : t.spendCall.cursor.nesting.limit ≤ t.spendCall.cursor.nesting.depth := by
    simp only [Cursor.room, Nesting.room] at hroom
    simp only [Tape.spendCall]
    omega
  rw [if_neg hspent, if_neg hspent, spendCall?_eq_some hspent]
  simp only [Option.bind_eq_bind, Option.bind_some, hle, or_true, if_true, Option.map_some]

theorem Executed.executeRule {room : Nat} (h : write.Executed lib room) (hlib : lib.Built)
    {rule : Rule RuleRef} (hrule : lib.rule? r = some rule) (ht : t.Inside lib)
    (hroom : t.cursor.room = room + 1)
    (hsteps : t.Steps lib (Writer.limited lib (some write) r t)) :
    (lib.executeRule r rule t).map Subtype.val = some (Writer.limited lib (some write) r t) := by
  rw [Library.executeRule]
  unfold Writer.limited at hsteps ⊢
  by_cases hspent : t.cursor.calls.isSpent = true
  · rw [if_pos hspent, if_pos hspent]
    rfl
  have hnot : ¬ t.spendCall.cursor.nesting.limit ≤ t.spendCall.cursor.nesting.depth := by
    simp only [Cursor.room, Nesting.room] at hroom
    simp only [Tape.spendCall]
    omega
  rw [if_neg hspent] at hsteps ⊢
  rw [if_neg hspent, spendCall?_eq_some hspent]
  simp only [Option.bind_eq_bind, Option.bind_some, hnot, or_false] at hsteps ⊢
  by_cases hexceeded : t.spendCall.cursor.nesting.exceeded = true
  · rw [if_pos hexceeded, if_pos hexceeded]
    rfl
  rw [if_neg hexceeded] at hsteps ⊢
  rw [if_neg hexceeded]
  obtain ⟨hroom', hinner, henter⟩ := enter?_eq_some (t := t.spendCall) hroom
  obtain ⟨hlevel, hrun⟩ := exists_of_map_val
    (h.perform (hlib.closed.targets r rule hrule) (fun target => hlib.follow hrule)
      ht.spendCall.enter hroom')
  rcases hw : write.perform r t.spendCall.enter rule.kind with ⟨result, t'⟩
  simp only [hw] at hlevel hrun
  simp only [hrule, hw] at hsteps
  simp only [henter, hrun, leave?_eq_some hlevel, hrule, hw, Option.bind_some]
  cases result with
  | none =>
      obtain ⟨hp, hback⟩ := ht.placeAt?_offset
      simp only [hback, Option.bind_some, Option.map_some]
      rfl
  | some n =>
      obtain ⟨hp, hnext⟩ := ht.placeAt?_advance (hsteps.splits n rfl)
      simp only [hnext, Option.bind_some, Option.map_some]
      rfl

/-! ## The recording -/

theorem exists_length (ht : t.Inside lib) {recording : Recording}
    (hrecording : t.recording = some recording) {offset : Nat} {events : Array Event}
    (hhit : recording.outcome? r offset = some (some events)) :
    ∃ n, (t.events ++ events).back?.bind Event.bytes? = some n := by
  obtain ⟨s, hshows, -⟩ := ht
  have hrel := hshows.recording
  rw [hrecording] at hrel
  generalize s.memo = memo at hrel
  cases hrel with
  | some hmemo =>
      rw [hmemo.outcome r offset] at hhit
      obtain ⟨outcome, -, houtcome⟩ := Option.map_eq_some_iff.1 hhit
      obtain ⟨d, -, rfl⟩ := Option.map_eq_some_iff.1 houtcome
      refine ⟨d.length, ?_⟩
      rw [← Derivation.emit_eq_append, Derivation.back?_emit]
      rfl

/-- If the machine runs rules within the limits as the writer does, it also runs them so through the
recording. -/
theorem execute_memoized (hr : lib.Knows r) (ht : t.Inside lib)
    (hsteps : t.Steps lib (Writer.memoized write r t))
    (hmiss : t.countMiss.Steps lib (write r t.countMiss))
    (hrun : ∀ t' : Tape, t'.Inside lib → t'.cursor = t.cursor → ∀ rule, lib.rule? r = some rule →
      (lib.executeRule r rule t').map Subtype.val = some (write r t')) :
    (lib.execute r t).map Subtype.val = some (Writer.memoized write r t) := by
  obtain ⟨rule, hrule⟩ := Option.isSome_iff_exists.1 hr
  rw [Library.execute, hrule]
  unfold Writer.memoized at hsteps ⊢
  simp only [Option.bind_eq_bind, Option.bind_some]
  cases hrecording : t.recording with
  | none => exact hrun t ht rfl rule hrule
  | some recording =>
      rw [hrecording] at hsteps
      simp only at hsteps ⊢
      rcases hout : recording.outcome? r t.place.offset with _ | _ | events
      · obtain ⟨hmoves, hfresh⟩ :=
          exists_of_map_val (hrun t.countMiss ht.countMiss rfl rule hrule)
        rcases hw : write r t.countMiss with ⟨result, t'⟩
        simp only [hw] at hfresh hmiss
        have hwritten : slice? t'.events t.events.size t'.events.size =
            some (t'.events.extract t.events.size) :=
          slice?_eq_some hmiss.size (Nat.le_refl _)
        simp only [hfresh, Option.bind_some, hwritten]
        split <;> rfl
      · rfl
      · obtain ⟨n, hn⟩ := exists_length ht hrecording hout
        have hcopied : ((t.noteReplay r t.place.offset).append events).events.back?.bind
            Event.bytes? = some n := hn
        simp only [hout, hcopied] at hsteps
        obtain ⟨hp, hnext⟩ := ht.placeAt?_advance (hsteps.splits n rfl)
        simp only [hcopied, hnext, Option.bind_some, Option.map_some]

end Writer

/-! ## All rooms -/

namespace Library

variable {lib : Library} {r : RuleRef} {t : Tape}

theorem writer_steps (hclosed : lib.Closed) (room : Nat) (hr : lib.Knows r) (ht : t.Inside lib) :
    t.Steps lib (lib.writer room r t) :=
  (lib.writer_writes room).steps (lib.exec_deriving hclosed room) hr ht

theorem writer_executed (hlib : lib.Built) (room : Nat) :
    (lib.writer room).Executed lib room := by
  have hclosed := hlib.closed
  induction room with
  | zero =>
      refine ⟨fun r t => writer_steps hclosed 0, fun r t hr ht hroom => ?_⟩
      refine Writer.execute_memoized hr ht (writer_steps hclosed 0 hr ht) ?_ ?_
      · exact (Writer.Writes.limited_none lib).steps Exec.Deriving.limited_none hr ht.countMiss
      · intro t' _ hcursor rule _
        rw [← hcursor] at hroom
        exact Writer.executeRule_none hroom
  | succ room ih =>
      have hwrites := (lib.writer_writes room).limited_some lib
      have hderiving := (lib.exec_deriving hclosed room).limited_some hclosed
      refine ⟨fun r t => writer_steps hclosed (room + 1), fun r t hr ht hroom => ?_⟩
      refine Writer.execute_memoized hr ht (writer_steps hclosed (room + 1) hr ht) ?_ ?_
      · exact hwrites.steps hderiving hr ht.countMiss
      · intro t' ht' hcursor rule hrule
        rw [← hcursor] at hroom
        exact ih.executeRule hlib hrule ht' hroom (hwrites.steps hderiving hr ht')

/-- The machine goes through all its checks, and ends as the writer says. -/
theorem execute_eq (hlib : lib.Built) (hr : lib.Knows r) (ht : t.Inside lib) :
    (lib.execute r t).map Subtype.val = some (lib.write r t) :=
  (writer_executed hlib t.cursor.room).runs r t hr ht rfl

end Library

end Peg
