import Peg.Proofs.Session.Written

/-!
# What executions without restoration leave

A rule that is executed directly and fails adds nothing to the buffer. The cursor is where it was,
unless the rule is a sequence or a repetition: these leave it behind the parts that matched before
the one that failed, and only a run moves it back from there. Main statement:
`Tape.Reached.writeBare_of_none`.
-/

namespace Peg

/-- Whether an execution that fails leaves the cursor where it was. -/
def Kind.StaysPut {τ : Type} : Kind τ → Prop
  | sequence _ => False
  | rep _ _ _ => False
  | _ => True

/-- How far the execution of a rule goes that fails at the place: over the parts of a sequence
before the one that fails, and over rounds of a repetition that are too few. -/
inductive Library.Abandons (lib : Library) (r : RuleRef) (p : Place) : Kind RuleRef → Nat → Prop
  | sequence {front : List Nat} {failed : Nat} {back : List Nat} {ds : List Derivation} :
      Derivability.Row lib.Derives (front.map r.sibling) p ds →
      Abandons lib r p (.sequence (front ++ failed :: back)) (Derivation.totalLength ds)
  | rep {body least : Nat} {most : Option Nat} {ds : List Derivation} :
      Derivability.Row lib.Derives (List.replicate ds.length (r.sibling body)) p ds →
      (∀ d ∈ ds, d.length ≠ 0) → ds.length < least →
      Abandons lib r p (.rep body least most) (Derivation.totalLength ds)
  | put {kind : Kind RuleRef} : kind.StaysPut → Abandons lib r p kind 0

theorem Library.Derives.advance_row {lib : Library} {r : RuleRef} {rs : List RuleRef} {p : Place}
    {d : Derivation} {ds : List Derivation} (hd : lib.Derives r p d)
    (hrow : Derivability.Row lib.Derives rs (p.advance d.length) ds) :
    (p.advance d.length).advance (Derivation.totalLength ds) =
      p.advance (Derivation.totalLength (d :: ds)) :=
  Place.advance_advance hd.covers (hrow.covers Library.Derives.covers)

namespace Exec.Deriving

variable {lib : Library} {n : Nat} {exec : Exec} {r : RuleRef} {s : State}

theorem all_of_none (h : exec.Deriving lib n) {rs : List RuleRef} (hrs : ∀ r ∈ rs, lib.Knows r)
    (hs : lib.Inside s) (hnone : (exec.all rs s).1 = none) :
    ∃ front failed back ds, rs = front ++ failed :: back ∧
      Derivability.Row lib.Derives front s.place ds ∧
      (exec.all rs s).2.place = s.place.advance (Derivation.totalLength ds) := by
  induction rs generalizing s with
  | nil => cases hnone
  | cons r rs ih =>
      obtain ⟨hr, hrest⟩ := List.forall_mem_cons.1 hrs
      cases hout : (exec r s).1 with
      | none =>
          rw [Exec.all_cons_none rs hout]
          refine ⟨[], r, rs, [], rfl, .nil, ?_⟩
          rw [Derivation.totalLength, Place.advance_zero]
          exact (h.sound.follows r s hr hs.ready).place_of_none hout
      | some d =>
          rw [Exec.all_cons_some rs hout] at hnone ⊢
          obtain ⟨front, failed, back, ds, rfl, hrow, hplace⟩ :=
            ih hrest (h.inside hr hs) (Option.map_eq_none_iff.1 hnone)
          have hd : lib.Derives r s.place d := h.allows hr hs d hout
          rw [(h.sound.follows r s hr hs.ready).place_of_some hout] at hrow hplace
          rw [hd.advance_row hrow] at hplace
          exact ⟨r :: front, failed, back, d :: ds, rfl, .cons hd hrow, hplace⟩

theorem firstOf_of_none (h : exec.Deriving lib n) {rs : List RuleRef} (hrs : ∀ r ∈ rs, lib.Knows r)
    (hs : lib.Inside s) (hnone : (exec.firstOf rs s).1 = none) :
    (exec.firstOf rs s).2.place = s.place := by
  induction rs generalizing s with
  | nil => rfl
  | cons r rs ih =>
      obtain ⟨hr, hrest⟩ := List.forall_mem_cons.1 hrs
      cases hout : (exec r s).1 with
      | none =>
          rw [Exec.firstOf_cons_none rs hout] at hnone ⊢
          have hplace := (h.sound.follows r s hr hs.ready).place_of_none hout
          exact (ih hrest (h.inside hr hs) hnone).trans hplace
      | some d =>
          rw [Exec.firstOf_cons_some rs hout] at hnone
          cases hnone

/-- A repetition fails behind rounds that are too few, none of which matched nothing. As in
`Sound.repeated` the rounds do not run out of unread characters. -/
theorem repeated_of_none (h : exec.Deriving lib n) (hr : lib.Knows r) (least : Nat)
    (most : Option Nat) (unread : List Char) (count : Nat) {s : State}
    (hs : lib.Inside s) (hunread : s.place.rest.length ≤ unread.length)
    (hnone : (exec.repeated r least most unread count [] s).1 = none) :
    ∃ ds, Derivability.Row lib.Derives (List.replicate ds.length r) s.place ds ∧
      (∀ d ∈ ds, d.length ≠ 0) ∧ count + ds.length < least ∧
      (exec.repeated r least most unread count [] s).2.place =
        s.place.advance (Derivation.totalLength ds) := by
  have too_few {rounds : List Derivation}
      (hrounds : (if least ≤ count then some rounds else none) = none) : count < least := by
    split at hrounds
    · cases hrounds
    · omega
  by_cases hmost : most = some count
  · rw [Exec.repeated_full unread [] hmost] at hnone ⊢
    exact ⟨[], .nil, nofun, too_few hnone, s.place.advance_zero.symm⟩
  cases hout : (exec r s).1 with
  | none =>
      rw [Exec.repeated_none unread [] hmost hout] at hnone ⊢
      refine ⟨[], .nil, nofun, too_few hnone, ?_⟩
      rw [Derivation.totalLength, Place.advance_zero]
      exact (h.sound.follows r s hr hs.ready).place_of_none hout
  | some d =>
      have hd : lib.Derives r s.place d := h.allows hr hs d hout
      by_cases hlen : d.length = 0
      · rw [Exec.repeated_empty unread [] hmost hout hlen] at hnone
        cases hnone
      · obtain ⟨c, rest, rfl, hrest⟩ := hd.covers.exists_cons hlen hunread
        have hplace := (h.sound.follows r s hr hs.ready).place_of_some hout
        rw [← hplace] at hrest
        rw [Exec.repeated_more c rest hmost hout hlen] at hnone ⊢
        obtain ⟨ds, hrow, hlengths, htoo_few, hend⟩ := repeated_of_none h hr least most rest
          (count + 1) (h.inside hr hs) hrest (Option.map_eq_none_iff.1 hnone)
        rw [hplace] at hrow hend
        rw [hd.advance_row hrow] at hend
        refine ⟨d :: ds, .cons hd hrow, List.forall_mem_cons.2 ⟨hlen, hlengths⟩, ?_, hend⟩
        rw [List.length_cons]
        omega
termination_by unread.length

theorem perform_of_none (h : exec.Deriving lib n) {kind : Kind RuleRef}
    (htargets : ∀ t ∈ kind.targets r, lib.Knows t) (hs : lib.Inside s)
    (hnone : (exec.perform r s kind).1 = none) :
    ∃ m, lib.Abandons r s.place kind m ∧ (exec.perform r s kind).2.place = s.place.advance m := by
  have put (hkind : kind.StaysPut) (hplace : (exec.perform r s kind).2.place = s.place) :
      ∃ m, lib.Abandons r s.place kind m ∧
        (exec.perform r s kind).2.place = s.place.advance m :=
    ⟨0, .put hkind, hplace.trans s.place.advance_zero.symm⟩
  have wrapped {target : RuleRef} (htarget : lib.Knows target)
      (hnone : (exec.wrap r target s).1 = none) : (exec.wrap r target s).2.place = s.place :=
    (h.sound.follows target s htarget hs.ready).place_of_none (Option.map_eq_none_iff.1 hnone)
  cases kind with
  | terminal matcher | text literal ignoreCase => exact put trivial rfl
  | sequence parts =>
      have hparts : ∀ part ∈ parts.map r.sibling, lib.Knows part :=
        fun part hpart => htargets part (List.mem_append_left _ hpart)
      obtain ⟨front, failed, back, ds, hsplit, hrow, hplace⟩ :=
        h.all_of_none hparts hs (Option.map_eq_none_iff.1 hnone)
      obtain ⟨is, rest, rfl, rfl, hrest⟩ := List.map_eq_append_iff.1 hsplit
      obtain ⟨i, js, rfl, -, -⟩ := List.map_eq_cons_iff.1 hrest
      exact ⟨_, .sequence hrow, hplace⟩
  | choice options =>
      have hoptions : ∀ option ∈ options.map r.sibling, lib.Knows option :=
        fun option hoption => htargets option (List.mem_append_left _ hoption)
      exact put trivial (h.firstOf_of_none hoptions hs (Option.map_eq_none_iff.1 hnone))
  | rep body least most =>
      have hbody : lib.Knows (r.sibling body) := htargets _ List.mem_cons_self
      obtain ⟨ds, hrow, hlengths, htoo_few, hplace⟩ :=
        h.repeated_of_none hbody least most s.place.rest 0 hs (Nat.le_refl _)
          (Option.map_eq_none_iff.1 hnone)
      rw [Nat.zero_add] at htoo_few
      exact ⟨_, .rep hrow hlengths htoo_few, hplace⟩
  | ahead body | notAhead body | upTo stop => exact put trivial rfl
  | ref name target | inherited name target =>
      exact put trivial (wrapped (htargets target List.mem_cons_self) hnone)
  | label body => exact put trivial (wrapped (htargets (r.sibling body) List.mem_cons_self) hnone)

end Exec.Deriving

namespace Tape.Reached

variable {lib : Library} {text : List Char} {t : Tape} {r : RuleRef} {rule : Rule RuleRef}

/-- A rule that is executed directly and fails, after any steps, under any limits and with any buffer,
adds nothing to the buffer. The cursor is where it was, but for sequences and repetitions: it stays
behind the parts of a sequence that matched before one failed, and behind the rounds of a repetition
that are too few. -/
theorem writeBare_of_none (hlib : lib.Built) (ht : t.Reached lib text) (hrule : lib.rule? r = some rule)
    (hnone : (lib.writeBare r t).1 = none) :
    (lib.writeBare r t).2.events = t.events ∧
      ∃ m, lib.Abandons r t.place rule.kind m ∧
        (lib.writeBare r t).2.place = t.place.advance m := by
  obtain ⟨s, hrecords, -, hinside⟩ := ht.records hlib.closed
  have hwrote := lib.writeBare_wrote hrecords.shows r
  have hbare : lib.runBare r s.state =
      (lib.exec s.state.cursor.nesting.room).perform r s.state rule.kind := by
    simp only [Library.runBare, hrule]
  have hfailed : (lib.runBare r s.state).1 = none := by
    have hlength := hwrote.length
    rw [hnone] at hlength
    exact Option.map_eq_none_iff.1 hlength.symm
  have hevents := hwrote.events
  rw [hfailed] at hevents
  rw [hbare] at hfailed
  obtain ⟨m, habandons, hplace⟩ := (lib.exec_deriving hlib.closed _).perform_of_none
    (hlib.closed.targets r rule hrule) hinside hfailed
  rw [← hbare, ← hwrote.shows.place, ← hrecords.shows.place] at hplace
  rw [← hrecords.shows.place] at habandons
  exact ⟨hevents, m, habandons, hplace⟩

/-- Brackets that are not closed: the cursor stays behind the opening one and what is inside. -/
theorem writeBare_of_none_brackets :
    ∃ t : Tape, t.Reached bracketLibrary "(()".toList ∧ t.events = #[.closed] ∧
      (bracketLibrary.writeBare ⟨0, 3⟩ t).1 = none ∧
      (bracketLibrary.writeBare ⟨0, 3⟩ t).2.events = #[.closed] ∧
      (bracketLibrary.writeBare ⟨0, 3⟩ t).2.place.offset = 3 ∧
      ∃ rule m, bracketLibrary.rule? ⟨0, 3⟩ = some rule ∧
        bracketLibrary.Abandons ⟨0, 3⟩ t.place rule.kind m ∧
        (bracketLibrary.writeBare ⟨0, 3⟩ t).2.place = t.place.advance m := by
  let first : Tape :=
    .start (((Cursor.new "(()".toList).withCallLimit none).withMaxDepth 20) false
  let t := first.withEvents #[.closed]
  have hcursor : Cursor.at? "(()".toList 0 = some (.new "(()".toList) := by decide +kernel
  have ht : t.Reached bracketLibrary "(()".toList := .exchange _ (.start none 20 false hcursor)
  have hknows : (bracketLibrary.rule? ⟨0, 3⟩).isSome = true := by decide +kernel
  obtain ⟨rule, hrule⟩ := Option.isSome_iff_exists.1 hknows
  have hnone : (bracketLibrary.writeBare ⟨0, 3⟩ t).1 = none := by decide +kernel
  have hoffset : (bracketLibrary.writeBare ⟨0, 3⟩ t).2.place.offset = 3 := by decide +kernel
  obtain ⟨hevents, m, habandons, hplace⟩ := writeBare_of_none bracketLibrary_built ht hrule hnone
  exact ⟨t, ht, rfl, hnone, hevents, hoffset, rule, m, hrule, habandons, hplace⟩

/-- A letter that is missing behind another one: the cursor is not where it was. -/
theorem writeBare_of_none_letters :
    ¬ ∀ (lib : Library) (text : List Char) (t : Tape) (r : RuleRef), lib.Built →
      t.Reached lib text → lib.Knows r → (lib.writeBare r t).1 = none →
        (lib.writeBare r t).2.events = t.events ∧ (lib.writeBare r t).2.place = t.place := by
  let letters : Draft :=
    { name := "AB", definitions := [("ab", .seq [.literal "a", .literal "b"])] }
  let lib : Library := ((Library.add {} letters).toOption).getD {}
  let t : Tape := .start (((Cursor.new "ac".toList).withCallLimit none).withMaxDepth 512) false
  have hbuilt : lib.Built := .single rfl (by decide +kernel)
  have hcursor : Cursor.at? "ac".toList 0 = some (.new "ac".toList) := by decide +kernel
  have ht : t.Reached lib "ac".toList := .start none 512 false hcursor
  have hknows : lib.Knows ⟨0, 2⟩ := by
    unfold Library.Knows
    decide +kernel
  intro hcontract
  obtain ⟨-, hplace⟩ := hcontract lib "ac".toList t ⟨0, 2⟩ hbuilt ht hknows (by decide +kernel)
  have hoffset : (lib.writeBare ⟨0, 2⟩ t).2.place.offset = 1 := by decide +kernel
  rw [hplace] at hoffset
  cases hoffset

end Tape.Reached

end Peg
