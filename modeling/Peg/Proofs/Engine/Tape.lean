import Peg.Derivation.Reading
import Peg.Engine.Tape
import Peg.Proofs.Engine.Step

/-!
# What is written to the buffer

A run that writes events does the same as the run that hands over derivations, whatever the limits
and the recording are: it behaves alike in every other respect, the events of the derivation stand
behind those that were in the buffer before, and after a failure nothing does. Main statement:
`Library.writer_writes`.
-/

namespace Peg

/-! ## Events behind others -/

theorem Derivation.emit_eq_append (events : Array Event) (d : Derivation) :
    emit events d = events ++ d.events := by
  rw [← Array.toList_inj]
  simp [emit_toList, events_toList]

theorem Derivation.emitAll_eq_append (events : Array Event) (ds : List Derivation) :
    emitAll events ds = events ++ emitAll #[] ds := by
  rw [← Array.toList_inj]
  simp [emitAll_toList]

theorem Derivation.emitAll_append (events : Array Event) (ds ds' : List Derivation) :
    emitAll events (ds ++ ds') = emitAll (emitAll events ds) ds' := by
  induction ds generalizing events with
  | nil => simp [emitAll]
  | cons d ds ih => simp [emitAll, ih]

theorem Derivation.totalLength_append (ds ds' : List Derivation) :
    totalLength (ds ++ ds') = totalLength ds + totalLength ds' := by
  induction ds with
  | nil => simp [totalLength]
  | cons d ds ih => simp [totalLength, ih, Nat.add_assoc]

theorem Derivation.back?_emit (events : Array Event) (d : Derivation) :
    (emit events d).back? = some (.length d.length) := by
  cases d <;> simp [emit, length]

theorem shrink_append (xs ys : Array Event) : (xs ++ ys).shrink xs.size = xs := by
  rw [← Array.toList_inj]
  simp

/-! ## Recordings and memos -/

/-- The recording holds the events of the derivations in the memo. -/
structure Recording.Shows (recording : Recording) (memo : Memo) : Prop where
  outcome : ∀ r offset, recording.outcome? r offset =
    (memo.outcome? r offset).map (Option.map Derivation.events)
  size : recording.table.size = memo.table.size
  stats : recording.stats = memo.stats

namespace Recording.Shows

variable {recording : Recording} {memo : Memo}

theorem empty : Recording.Shows {} {} where
  outcome r offset := by simp [Recording.outcome?, Memo.outcome?]
  size := by simp
  stats := rfl

theorem countHit (h : recording.Shows memo) : recording.countHit.Shows memo.countHit where
  outcome := h.outcome
  size := h.size
  stats := by simp [Recording.countHit, Memo.countHit, h.stats]

theorem countFailureHit (h : recording.Shows memo) :
    recording.countFailureHit.Shows memo.countFailureHit where
  outcome := h.outcome
  size := h.size
  stats := by simp [Recording.countFailureHit, Memo.countFailureHit, h.stats]

theorem countMiss (h : recording.Shows memo) : recording.countMiss.Shows memo.countMiss where
  outcome := h.outcome
  size := h.size
  stats := by simp [Recording.countMiss, Memo.countMiss, h.stats]

theorem record (h : recording.Shows memo) (r : RuleRef) (offset : Nat)
    (outcome : Option Derivation) :
    (recording.record r offset (outcome.map Derivation.events)).Shows
      (memo.record r offset outcome) where
  outcome r' offset' := by
    have hold := h.outcome r' offset'
    simp only [Recording.outcome?, Memo.outcome?, Recording.record, Memo.record,
      Std.HashMap.getElem?_insert] at hold ⊢
    split
    · rfl
    · exact hold
  size := by
    have hold := h.outcome r offset
    simp only [Recording.outcome?, Memo.outcome?] at hold
    have hmem : (r, offset) ∈ recording.table ↔ (r, offset) ∈ memo.table := by
      rw [← Std.HashMap.isSome_getElem?_iff_mem, ← Std.HashMap.isSome_getElem?_iff_mem, hold,
        Option.isSome_map]
    simp only [Recording.record, Memo.record, Std.HashMap.size_insert, hmem, h.size]
  stats := h.stats

end Recording.Shows

/-! ## Tapes and states -/

/-- The tape is where the state is, whatever is in the buffer. -/
structure Tape.Shows (t : Tape) (s : State) : Prop where
  cursor : t.cursor = s.cursor
  replays : t.replays = s.replays
  recording : Option.Rel Recording.Shows t.recording s.memo

namespace Tape.Shows

variable {t : Tape} {s : State}

theorem start (cursor : Cursor) (memoize : Bool) :
    (Tape.start cursor memoize).Shows (.start cursor memoize) where
  cursor := rfl
  replays := rfl
  recording := by
    cases memoize
    · exact .none
    · exact .some .empty

theorem place (h : t.Shows s) : t.place = s.place := congrArg Cursor.place h.cursor

theorem withEvents (h : t.Shows s) (events : Array Event) : (t.withEvents events).Shows s :=
  ⟨h.cursor, h.replays, h.recording⟩

theorem onCursor (h : t.Shows s) (f : Cursor → Cursor) :
    Tape.Shows { t with cursor := f t.cursor } { s with cursor := f s.cursor } :=
  ⟨congrArg f h.cursor, h.replays, h.recording⟩

theorem moveTo (h : t.Shows s) (p : Place) : (t.moveTo p).Shows (s.moveTo p) :=
  h.onCursor (·.moveTo p)

theorem advanceTo (h : t.Shows s) (p : Place) : (t.advanceTo p).Shows (s.advanceTo p) :=
  h.onCursor (·.advanceTo p)

theorem spendCall (h : t.Shows s) : t.spendCall.Shows s.spendCall :=
  h.onCursor fun c => { c with calls := c.calls.spend }

theorem refuseCall (h : t.Shows s) : t.refuseCall.Shows s.refuseCall :=
  h.onCursor fun c => { c with calls := c.calls.refuse }

theorem enter (h : t.Shows s) : t.enter.Shows s.enter :=
  h.onCursor fun c => { c with nesting := c.nesting.enter }

theorem leave (h : t.Shows s) : t.leave.Shows s.leave :=
  h.onCursor fun c => { c with nesting := c.nesting.leave }

theorem refuseNesting (h : t.Shows s) : t.refuseNesting.Shows s.refuseNesting :=
  h.onCursor fun c => { c with nesting := c.nesting.refuse }

theorem recording_eq_none (h : t.Shows s) (hmemo : s.memo = none) : t.recording = none := by
  have hrel := h.recording
  rw [hmemo] at hrel
  generalize t.recording = recording at hrel ⊢
  cases hrel
  rfl

theorem exists_recording (h : t.Shows s) {memo : Memo} (hmemo : s.memo = some memo) :
    ∃ recording, t.recording = some recording ∧ recording.Shows memo := by
  have hrel := h.recording
  rw [hmemo] at hrel
  generalize t.recording = recording at hrel ⊢
  cases hrel with
  | some hshows => exact ⟨_, rfl, hshows⟩

theorem map_recording (h : t.Shows s) {f : Recording → Recording} {g : Memo → Memo}
    (hfg : ∀ {recording memo}, recording.Shows memo → (f recording).Shows (g memo)) :
    Option.Rel Recording.Shows (t.recording.map f) (s.memo.map g) := by
  have hrel := h.recording
  generalize t.recording = recording at hrel ⊢
  generalize s.memo = memo at hrel ⊢
  cases hrel with
  | some hshows => exact .some (hfg hshows)
  | none => exact .none

theorem countMiss (h : t.Shows s) : t.countMiss.Shows s.countMiss :=
  ⟨h.cursor, h.replays, h.map_recording fun h => h.countMiss⟩

theorem countFailureHit (h : t.Shows s) : t.countFailureHit.Shows s.countFailureHit :=
  ⟨h.cursor, h.replays, h.map_recording fun h => h.countFailureHit⟩

theorem noteReplay (h : t.Shows s) (r : RuleRef) (offset : Nat) :
    (t.noteReplay r offset).Shows (s.noteReplay r offset) :=
  ⟨h.cursor, congrArg (Array.push · _) h.replays, h.map_recording fun h => h.countHit⟩

theorem remember (h : t.Shows s) (r : RuleRef) (offset : Nat) (outcome : Option Derivation) :
    (t.remember r offset (outcome.map Derivation.events)).Shows (s.remember r offset outcome) :=
  ⟨h.cursor, h.replays, h.map_recording fun h => h.record r offset outcome⟩

theorem reset (h : t.Shows s) : t.reset.Shows s.reset :=
  ⟨congrArg Cursor.reset h.cursor, h.replays, h.map_recording fun _ => .empty⟩

theorem renew (h : t.Shows s) : t.renew.Shows s.renew :=
  ⟨h.cursor, h.replays, h.map_recording fun _ => .empty⟩

end Tape.Shows

/-! ## Results -/

/-- What is left of a run that finds an outcome: the length of the match, and its events behind those
`before`, or only the latter. -/
structure Wrote (before : Array Event) (result : Option Nat × Tape)
    (outcome : Option Derivation × State) : Prop where
  length : result.1 = outcome.1.map Derivation.length
  shows : result.2.Shows outcome.2
  events : result.2.events = outcome.1.elim before (Derivation.emit before)

/-- What is left of a loop that finds matches in a row. If it fails, the events of those that it
found are still there. -/
structure WroteAll (before : Array Event) (result : Option Nat × Tape)
    (outcome : Option (List Derivation) × State) : Prop where
  length : result.1 = outcome.1.map Derivation.totalLength
  shows : result.2.Shows outcome.2
  events : ∀ ds ∈ outcome.1, result.2.events = Derivation.emitAll before ds
  kept : ∃ more, result.2.events = before ++ more

namespace Tape.Shows

variable {t : Tape} {s : State}

theorem wrote_none (h : t.Shows s) : Wrote t.events (none, t) (none, s) := ⟨rfl, h, rfl⟩

theorem wrote_leaf (h : t.Shows s) (r : RuleRef) (n : Nat) :
    Wrote t.events (t.leaf r n) (some (.branch r n []), s) := by
  refine ⟨rfl, h.withEvents _, ?_⟩
  simp [Tape.leaf, Tape.close, Tape.push, Derivation.emit, Derivation.emitAll]

theorem wroteAll_done (h : t.Shows s) {before : Array Event} {done : List Derivation}
    (hevents : t.events = Derivation.emitAll before done) :
    WroteAll before (some (Derivation.totalLength done), t) (some done, s) := by
  refine ⟨rfl, h, fun ds hds => ?_, ?_⟩
  · cases hds
    exact hevents
  · rw [hevents, Derivation.emitAll_eq_append]
    exact ⟨_, rfl⟩

theorem wroteAll_none (h : t.Shows s) {before : Array Event} {done : List Derivation}
    (hevents : t.events = Derivation.emitAll before done) :
    WroteAll before (none, t) (none, s) := by
  refine ⟨rfl, h, fun ds hds => ?_, ?_⟩
  · cases hds
  · rw [hevents, Derivation.emitAll_eq_append]
    exact ⟨_, rfl⟩

end Tape.Shows

theorem WroteAll.around {t : Tape} {r : RuleRef} {parts : Tape → Option Nat × Tape}
    {outcome : Option (List Derivation) × State}
    (h : WroteAll (t.events.push (.opened r)) (parts (t.push (.opened r))) outcome) :
    Wrote t.events (t.around r parts)
      (outcome.1.map fun ds => .branch r (Derivation.totalLength ds) ds, outcome.2) := by
  rcases hparts : parts (t.push (.opened r)) with ⟨result, t'⟩
  obtain ⟨found, s'⟩ := outcome
  rw [hparts] at h
  have hlength : result = found.map Derivation.totalLength := h.length
  simp only [Tape.around, hparts]
  subst hlength
  cases found with
  | none =>
      obtain ⟨more, hmore⟩ := h.kept
      have hmore' : t'.events = t.events ++ (#[Event.opened r] ++ more) := by
        rw [hmore, Array.push_eq_append, Array.append_assoc]
      refine ⟨rfl, h.shows.withEvents _, ?_⟩
      change t'.events.shrink t.events.size = t.events
      rw [hmore', shrink_append]
  | some ds =>
      have hevents : t'.events = Derivation.emitAll (t.events.push (.opened r)) ds :=
        h.events ds rfl
      refine ⟨rfl, h.shows.withEvents _, ?_⟩
      simp [Tape.close, Tape.push, hevents, Derivation.emit]

theorem Wrote.around {t : Tape} {r : RuleRef} {parts : Tape → Option Nat × Tape}
    {outcome : Option Derivation × State}
    (h : Wrote (t.events.push (.opened r)) (parts (t.push (.opened r))) outcome) :
    Wrote t.events (t.around r parts) (outcome.1.map (.wrapped r), outcome.2) := by
  rcases hparts : parts (t.push (.opened r)) with ⟨result, t'⟩
  obtain ⟨found, s'⟩ := outcome
  rw [hparts] at h
  have hlength : result = found.map Derivation.length := h.length
  have hevents := h.events
  simp only [Tape.around, hparts]
  subst hlength
  cases found with
  | none =>
      have hpush : t'.events = t.events ++ #[Event.opened r] := by
        rw [← Array.push_eq_append]
        exact hevents
      refine ⟨rfl, h.shows.withEvents _, ?_⟩
      change t'.events.shrink t.events.size = t.events
      rw [hpush, shrink_append]
  | some d =>
      have hemit : t'.events = Derivation.emit (t.events.push (.opened r)) d := hevents
      refine ⟨rfl, h.shows.withEvents _, ?_⟩
      simp [Tape.close, Tape.push, hemit, Derivation.emit]

/-! ## Loops -/

namespace Writer

/-- The writer writes what the runs find. -/
def Writes (write : Writer) (exec : Exec) : Prop :=
  ∀ (r : RuleRef) {t : Tape} {s : State}, t.Shows s → Wrote t.events (write r t) (exec r s)

namespace Writes

variable {write : Writer} {exec : Exec} {t : Tape} {s : State}

theorem run_cases (h : write.Writes exec) (r : RuleRef) (ht : t.Shows s) :
    ∃ t' s', t'.Shows s' ∧
      ((∃ d, write r t = (some d.length, t') ∧ exec r s = (some d, s') ∧
          t'.events = d.emit t.events) ∨
        write r t = (none, t') ∧ exec r s = (none, s') ∧ t'.events = t.events) := by
  have hwrote := h r ht
  rcases hw : write r t with ⟨result, t'⟩
  rcases hx : exec r s with ⟨outcome, s'⟩
  rw [hw, hx] at hwrote
  obtain ⟨hlength, hshows, hevents⟩ := hwrote
  refine ⟨t', s', hshows, ?_⟩
  cases outcome with
  | none => exact .inr ⟨Prod.ext hlength rfl, rfl, hevents⟩
  | some d => exact .inl ⟨d, Prod.ext hlength rfl, rfl, hevents⟩

theorem test (h : write.Writes exec) (r : RuleRef) (ht : t.Shows s) :
    (write.test r t).1 = (exec r s).1.map Derivation.length ∧
      (write.test r t).2.Shows (exec.test r s).2 ∧ (write.test r t).2.events = t.events := by
  have hwrote := h r (ht.withEvents #[])
  refine ⟨hwrote.length, ?_, rfl⟩
  have hback := (hwrote.shows.moveTo t.place).withEvents t.events
  rw [ht.place] at hback
  rw [Exec.test_snd, ← ht.place]
  rw [← ht.place] at hback
  exact hback

theorem test_cases (h : write.Writes exec) (r : RuleRef) (ht : t.Shows s) :
    ∃ t' s', t'.Shows s' ∧ t'.events = t.events ∧
      ((∃ n, write.test r t = (some n, t') ∧ exec.test r s = (true, s')) ∨
        write.test r t = (none, t') ∧ exec.test r s = (false, s')) := by
  obtain ⟨hlength, hshows, hevents⟩ := h.test r ht
  refine ⟨_, _, hshows, hevents, ?_⟩
  cases hout : (exec r s).1 with
  | none =>
      rw [hout] at hlength
      exact .inr ⟨Prod.ext hlength rfl, Prod.ext (by rw [Exec.test_fst, hout]; rfl) rfl⟩
  | some d =>
      rw [hout] at hlength
      exact .inl ⟨d.length, Prod.ext hlength rfl, Prod.ext (by rw [Exec.test_fst, hout]; rfl) rfl⟩

theorem all (h : write.Writes exec) (rs : List RuleRef) (before : Array Event)
    (done : List Derivation) (ht : t.Shows s) (hevents : t.events = Derivation.emitAll before done) :
    WroteAll before (write.all rs (Derivation.totalLength done) t)
      ((exec.all rs s).1.map (done ++ ·), (exec.all rs s).2) := by
  induction rs generalizing t s done with
  | nil =>
      simp only [Writer.all, Exec.all, Option.map_some, List.append_nil]
      exact ht.wroteAll_done hevents
  | cons r rs ih =>
      obtain ⟨t', s', hshows, ⟨d, hw, hx, hbuffer⟩ | ⟨hw, hx, hbuffer⟩⟩ := h.run_cases r ht
      · have hnext : t'.events = Derivation.emitAll before (done ++ [d]) := by
          rw [Derivation.emitAll_append, ← hevents]
          exact hbuffer
        have htotal : Derivation.totalLength done + d.length =
            Derivation.totalLength (done ++ [d]) := by
          simp [Derivation.totalLength_append, Derivation.totalLength]
        have hrest := ih (done ++ [d]) hshows hnext
        have hfound : (exec r s).1 = some d := by rw [hx]
        simp only [List.append_assoc, List.singleton_append] at hrest
        rw [Exec.all_cons_some rs hfound]
        simp only [Writer.all, hw, hx, htotal, Option.map_map, Function.comp_def]
        exact hrest
      · simp only [Writer.all, Exec.all, hw, hx, Option.map_none]
        exact hshows.wroteAll_none (hbuffer.trans hevents)

theorem firstOf (h : write.Writes exec) (rs : List RuleRef) (ht : t.Shows s) :
    Wrote t.events (write.firstOf rs t) (exec.firstOf rs s) := by
  induction rs generalizing t s with
  | nil => exact ht.wrote_none
  | cons r rs ih =>
      obtain ⟨t', s', hshows, ⟨d, hw, hx, hbuffer⟩ | ⟨hw, hx, hbuffer⟩⟩ := h.run_cases r ht
      · simp only [Writer.firstOf, Exec.firstOf, hw, hx]
        exact ⟨rfl, hshows, hbuffer⟩
      · have hrest := ih hshows
        rw [hbuffer] at hrest
        simp only [Writer.firstOf, Exec.firstOf, hw, hx]
        exact hrest

theorem wroteAll_ifEnough {least count : Nat} {before : Array Event} {done : List Derivation}
    (ht : t.Shows s) (hevents : t.events = Derivation.emitAll before done) :
    WroteAll before (ifEnough least count (Derivation.totalLength done), t)
      (if least ≤ count then some done else none, s) := by
  unfold ifEnough
  split
  · exact ht.wroteAll_done hevents
  · exact ht.wroteAll_none hevents

/-- The count stays within the greatest number of rounds, so it is reached exactly when it is no
longer less. -/
theorem any_le_iff {most : Option Nat} {count : Nat} (hcount : ∀ bound ∈ most, count ≤ bound) :
    most.any (· ≤ count) = true ↔ most = some count := by
  cases most with
  | none => simp
  | some bound =>
      have hle := hcount bound rfl
      simp only [Option.any_some, decide_eq_true_eq, Option.some.injEq]
      omega

theorem repeated (h : write.Writes exec) (r : RuleRef) (least : Nat) (most : Option Nat)
    (unread : List Char) (count : Nat) (before : Array Event) (done : List Derivation) {t : Tape}
    {s : State} (ht : t.Shows s) (hcount : ∀ bound ∈ most, count ≤ bound)
    (hevents : t.events = Derivation.emitAll before done.reverse) :
    WroteAll before
      (write.repeated r least most unread count (Derivation.totalLength done.reverse) t)
      (exec.repeated r least most unread count done s) := by
  by_cases hmost : most = some count
  · rw [Exec.repeated_full unread done hmost]
    unfold Writer.repeated
    rw [if_pos ((any_le_iff hcount).2 hmost)]
    exact wroteAll_ifEnough ht hevents
  have hany : ¬ most.any (· ≤ count) = true := fun hany => hmost ((any_le_iff hcount).1 hany)
  unfold Writer.repeated
  rw [if_neg hany]
  obtain ⟨t', s', hshows, ⟨d, hw, hx, hbuffer⟩ | ⟨hw, hx, hbuffer⟩⟩ := h.run_cases r ht
  · have hfound : (exec r s).1 = some d := by rw [hx]
    have hnext : t'.events = Derivation.emitAll before (d :: done).reverse := by
      rw [List.reverse_cons, Derivation.emitAll_append, ← hevents]
      exact hbuffer
    have htotal : Derivation.totalLength (d :: done).reverse =
        Derivation.totalLength done.reverse + d.length := by
      simp [Derivation.totalLength_append, Derivation.totalLength]
    by_cases hzero : d.length = 0
    · -- the match of nothing adds nothing, and the rounds count as enough
      have henough : least ≤ max (max count least) 1 := by omega
      rw [Exec.repeated_empty unread done hmost hfound hzero]
      simp only [hw, hx, hzero, if_true, ifEnough, henough]
      rw [hzero, Nat.add_zero] at htotal
      rw [← htotal]
      exact hshows.wroteAll_done hnext
    · simp only [hw, hzero, if_false]
      cases unread with
      | nil =>
          rw [Exec.repeated_nil done hmost hfound hzero, hx]
          exact hshows.wroteAll_none hnext
      | cons c unread =>
          have hcount' : ∀ bound ∈ most, count + 1 ≤ bound := by
            intro bound hbound
            have hle := hcount bound hbound
            have hne : bound ≠ count := fun heq => hmost (heq ▸ hbound)
            omega
          rw [Exec.repeated_cons c unread done hmost hfound hzero, hx, ← htotal]
          exact repeated h r least most unread (count + 1) before (d :: done) hshows hcount' hnext
  · have hfailed : (exec r s).1 = none := by rw [hx]
    rw [Exec.repeated_none unread done hmost hfailed, hw, hx]
    exact wroteAll_ifEnough hshows (hbuffer.trans hevents)

theorem upTo (h : write.Writes exec) (stop : RuleRef) (rest : List Char) (passed : Nat)
    (ht : t.Shows s) :
    (write.upTo stop rest passed t).1 = (exec.upTo stop rest passed s).1 ∧
      (write.upTo stop rest passed t).2.Shows (exec.upTo stop rest passed s).2 ∧
      (write.upTo stop rest passed t).2.events = t.events := by
  induction rest generalizing passed t s with
  | nil =>
      obtain ⟨t', s', hshows, hevents, ⟨n, hw, hx⟩ | ⟨hw, hx⟩⟩ := h.test_cases stop ht
      all_goals
        simp only [Writer.upTo, Exec.upTo, hw, hx]
        exact ⟨trivial, hshows, hevents⟩
  | cons c rest ih =>
      obtain ⟨t', s', hshows, hevents, ⟨n, hw, hx⟩ | ⟨hw, hx⟩⟩ := h.test_cases stop ht
      · unfold Writer.upTo Exec.upTo
        simp only [hw, hx]
        exact ⟨trivial, hshows, hevents⟩
      · unfold Writer.upTo Exec.upTo
        simp only [hw, hx, hshows.place]
        obtain ⟨hpassed, hshows', hevents'⟩ :=
          ih (passed + c.utf8Size) (hshows.moveTo (s'.place.past c rest))
        exact ⟨hpassed, hshows', hevents'.trans hevents⟩

/-! ## Executions -/

theorem perform (h : write.Writes exec) (r : RuleRef) (ht : t.Shows s) (kind : Kind RuleRef) :
    Wrote t.events (write.perform r t kind) (exec.perform r s kind) := by
  cases kind with
  | terminal matcher =>
      simp only [Writer.perform, Exec.perform, ht.place]
      cases matcher.matchAt s.place.rest with
      | none => exact ht.wrote_none
      | some n => exact ht.wrote_leaf r n
  | text literal ignoreCase =>
      simp only [Writer.perform, Exec.perform, ht.place]
      cases literalAt (if ignoreCase then sameLower else (· == ·)) literal s.place.rest with
      | none => exact ht.wrote_none
      | some n => exact ht.wrote_leaf r n
  | sequence parts =>
      have hall := h.all (parts.map r.sibling) (t.events.push (.opened r)) []
        (ht.withEvents (t.events.push (.opened r))) rfl
      simp only [List.nil_append, Option.map_id'] at hall
      exact WroteAll.around hall
  | choice options => exact Wrote.around (h.firstOf _ (ht.withEvents (t.events.push (.opened r))))
  | rep body least most =>
      have hrepeated := h.repeated (r.sibling body) least most s.place.rest 0
        (t.events.push (.opened r)) [] (ht.withEvents (t.events.push (.opened r)))
        (fun bound _ => Nat.zero_le bound) rfl
      simp only [Writer.perform, ht.place]
      exact WroteAll.around hrepeated
  | ahead body =>
      obtain ⟨t', s', hshows, hevents, ⟨n, hw, hx⟩ | ⟨hw, hx⟩⟩ := h.test_cases (r.sibling body) ht
      all_goals
        simp only [Writer.perform, Exec.perform, hw, hx]
        rw [← hevents]
      · exact hshows.wrote_leaf r 0
      · exact hshows.wrote_none
  | notAhead body =>
      obtain ⟨t', s', hshows, hevents, ⟨n, hw, hx⟩ | ⟨hw, hx⟩⟩ := h.test_cases (r.sibling body) ht
      all_goals
        simp only [Writer.perform, Exec.perform, hw, hx]
        rw [← hevents]
      · exact hshows.wrote_none
      · exact hshows.wrote_leaf r 0
  | upTo stop =>
      obtain ⟨hpassed, hshows, hevents⟩ := h.upTo (r.sibling stop) s.place.rest 0 ht
      rcases hw : write.upTo (r.sibling stop) s.place.rest 0 t with ⟨passed, t'⟩
      rcases hx : exec.upTo (r.sibling stop) s.place.rest 0 s with ⟨passed', s'⟩
      rw [hw] at hpassed hshows hevents
      rw [hx] at hpassed hshows
      cases hpassed
      have hback := hshows.moveTo s.place
      have hbuffer : (t'.moveTo s.place).events = t.events := hevents
      simp only [Writer.perform, Exec.perform, ht.place, hw, hx]
      rw [← hbuffer]
      split
      · exact hback.wrote_leaf r passed
      · exact hback.wrote_none
  | ref name target => exact Wrote.around (h target (ht.withEvents (t.events.push (.opened r))))
  | inherited name target =>
      exact Wrote.around (h target (ht.withEvents (t.events.push (.opened r))))
  | label body => exact Wrote.around (h _ (ht.withEvents (t.events.push (.opened r))))

theorem limited_none (lib : Library) :
    (Writer.limited lib none).Writes (Exec.limited lib none) := by
  intro r t s ht
  simp only [Writer.limited, Exec.limited, ht.cursor]
  split
  · exact ht.refuseCall.wrote_none
  · exact ht.spendCall.refuseNesting.wrote_none

theorem limited_some (h : write.Writes exec) (lib : Library) :
    (Writer.limited lib (some write)).Writes (Exec.limited lib (some exec)) := by
  intro r t s ht
  have hexceeded : t.spendCall.cursor.nesting.exceeded = s.spendCall.cursor.nesting.exceeded := by
    rw [ht.spendCall.cursor]
  simp only [Writer.limited, Exec.limited, ht.cursor, hexceeded]
  split
  · exact ht.refuseCall.wrote_none
  split
  · exact ht.spendCall.refuseNesting.wrote_none
  cases lib.rule? r with
  | none => exact ht.spendCall.wrote_none
  | some rule =>
      have hwrote := h.perform r ht.spendCall.enter rule.kind
      rcases hw : write.perform r t.spendCall.enter rule.kind with ⟨result, t'⟩
      rcases hx : exec.perform r s.spendCall.enter rule.kind with ⟨outcome, s'⟩
      rw [hw, hx] at hwrote
      have hlength : result = outcome.map Derivation.length := hwrote.length
      have hevents := hwrote.events
      have hplace : t.spendCall.place = s.spendCall.place := ht.spendCall.place
      simp only [hplace, hw, hx]
      subst hlength
      cases outcome with
      | none =>
          have hsame : t'.events = t.events := hevents
          refine ⟨rfl, (hwrote.shows.leave.withEvents _).moveTo _, ?_⟩
          change t'.events.shrink t.events.size = t.events
          rw [hsame]
          simp
      | some d => exact ⟨rfl, hwrote.shows.leave.advanceTo _, hevents⟩

theorem wrote_replay {recording : Recording} {r : RuleRef} {d : Derivation}
    (ht : t.Shows s) (hrecording : t.recording = some recording)
    (hhit : recording.outcome? r s.place.offset = some (some d.events)) :
    Wrote t.events (Writer.memoized write r t)
      (some d, (s.noteReplay r s.place.offset).advanceTo (s.place.advance d.length)) := by
  have hcopied : ((t.noteReplay r s.place.offset).append d.events).events =
      Derivation.emit t.events d := (Derivation.emit_eq_append t.events d).symm
  have hlast : ((t.noteReplay r s.place.offset).append d.events).events.back?.bind Event.bytes? =
      some d.length := by
    rw [hcopied, Derivation.back?_emit]
    rfl
  simp only [Writer.memoized, hrecording, ht.place, hhit, hlast]
  exact ⟨rfl, ((ht.noteReplay r s.place.offset).withEvents _).advanceTo _, hcopied⟩

theorem extract_emit (before : Array Event) (d : Derivation) :
    (Derivation.emit before d).extract before.size = d.events := by
  rw [Derivation.emit_eq_append]
  simp

theorem memoized (h : write.Writes exec) :
    (Writer.memoized write).Writes (Exec.memoized exec) := by
  intro r t s ht
  cases hmemo : s.memo with
  | none =>
      rw [Exec.memoized_of_none hmemo]
      simp only [Writer.memoized, ht.recording_eq_none hmemo]
      exact h r ht
  | some memo =>
      obtain ⟨recording, hrecording, hshows⟩ := ht.exists_recording hmemo
      have hout := hshows.outcome r s.place.offset
      rcases hhit : memo.outcome? r s.place.offset with _ | _ | d
      · rw [hhit] at hout
        have hwrote := h r ht.countMiss
        rcases hw : write r t.countMiss with ⟨result, t'⟩
        rcases hx : exec r s.countMiss with ⟨outcome, s'⟩
        rw [hw, hx] at hwrote
        have hlength : result = outcome.map Derivation.length := hwrote.length
        have hevents : t'.events = outcome.elim t.events (Derivation.emit t.events) := hwrote.events
        have hcursor : t'.cursor = s'.cursor := hwrote.shows.cursor
        have hwritten : (result.map fun _ => t'.events.extract t.events.size) =
            outcome.map Derivation.events := by
          rw [hlength, hevents]
          cases outcome with
          | none => rfl
          | some d => exact congrArg some (extract_emit t.events d)
        simp only [Writer.memoized, Exec.memoized, hrecording, hmemo, ht.place, hout, hhit,
          Option.map_none, hw, hx, hcursor, hwritten]
        split
        · exact hwrote
        · exact ⟨hlength, hwrote.shows.remember r _ outcome, hevents⟩
      · rw [hhit] at hout
        rw [Exec.memoized_of_failure_hit hmemo hhit]
        simp only [Writer.memoized, hrecording, ht.place, hout, Option.map_some, Option.map_none]
        exact ht.countFailureHit.wrote_none
      · rw [hhit] at hout
        rw [Exec.memoized_of_hit hmemo hhit]
        exact wrote_replay ht hrecording hout

end Writes

end Writer

/-- What a run writes is what the run without a buffer finds. -/
theorem Library.writer_writes (lib : Library) (room : Nat) :
    (lib.writer room).Writes (lib.exec room) := by
  induction room with
  | zero => exact (Writer.Writes.limited_none lib).memoized
  | succ room ih => exact (ih.limited_some lib).memoized

end Peg
