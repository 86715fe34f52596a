import Peg.Text.Place

/-!
# Places between characters

A number of bytes splits a text if these bytes are whole characters of it. Going forward from a
place by such a number leads to a place again, and two such moves make one. Main statement:
`Place.at?_eq_some_iff`, the places of a text are its splits.
-/

namespace Peg

/-- The first `n` bytes of the text are whole characters. -/
def Splits (n : Nat) (text : List Char) : Prop :=
  ∃ front back, text = front ++ back ∧ byteLength front = n

namespace Splits

theorem zero (text : List Char) : Splits 0 text := ⟨[], text, rfl, rfl⟩

theorem cons {n : Nat} {text : List Char} (h : Splits n text) (c : Char) :
    Splits (c.utf8Size + n) (c :: text) := by
  obtain ⟨front, back, rfl, hn⟩ := h
  exact ⟨c :: front, back, rfl, by rw [byteLength_cons, hn]⟩

theorem head (c : Char) (text : List Char) : Splits c.utf8Size (c :: text) := by
  have h := (zero text).cons c
  rwa [Nat.add_zero] at h

theorem eq_append_dropBytes {n : Nat} {text : List Char} (h : Splits n text) :
    ∃ front, text = front ++ dropBytes n text ∧ byteLength front = n := by
  obtain ⟨front, back, rfl, rfl⟩ := h
  exact ⟨front, by rw [dropBytes_byteLength_append], rfl⟩

theorem add {m n : Nat} {text : List Char} (hm : Splits m text) (hn : Splits n (dropBytes m text)) :
    Splits (m + n) text := by
  obtain ⟨front, htext, rfl⟩ := hm.eq_append_dropBytes
  obtain ⟨next, back, hnext, rfl⟩ := hn
  refine ⟨front ++ next, back, ?_, byteLength_append front next⟩
  rw [List.append_assoc, ← hnext]
  exact htext

theorem le_byteLength {n : Nat} {text : List Char} (h : Splits n text) : n ≤ byteLength text := by
  obtain ⟨front, back, rfl, rfl⟩ := h
  rw [byteLength_append]
  omega

theorem eq_zero_of_nil {n : Nat} (h : Splits n []) : n = 0 := by
  have hle := h.le_byteLength
  rw [byteLength_nil] at hle
  omega

end Splits

theorem dropBytes_zero (text : List Char) : dropBytes 0 text = text :=
  dropBytes_byteLength_append [] text

theorem dropBytes_dropBytes {m : Nat} {text : List Char} (hm : Splits m text) {n : Nat}
    (hn : Splits n (dropBytes m text)) :
    dropBytes n (dropBytes m text) = dropBytes (m + n) text := by
  obtain ⟨front, back, rfl, rfl⟩ := hm
  rw [dropBytes_byteLength_append] at hn ⊢
  obtain ⟨next, rest, rfl, rfl⟩ := hn
  rw [dropBytes_byteLength_append, ← byteLength_append, ← List.append_assoc,
    dropBytes_byteLength_append]

/-- Characters have at least one byte each, so passing over some of them leaves fewer. -/
theorem length_dropBytes_lt {n : Nat} {text : List Char} (h : Splits n text) (hn : n ≠ 0) :
    (dropBytes n text).length < text.length := by
  obtain ⟨front, htext, hfront⟩ := h.eq_append_dropBytes
  have hlen := congrArg List.length htext
  rw [List.length_append] at hlen
  have hpos : front.length ≠ 0 := by
    intro hzero
    rw [List.length_eq_zero_iff] at hzero
    rw [hzero, byteLength_nil] at hfront
    exact hn hfront.symm
  omega

/-- Behind characters passed over fewer are unread, so where something is passed over, a list that is no
shorter than the unread text has a character to spare. -/
theorem Splits.exists_cons {n : Nat} {p : Place} {unread : List Char} (h : Splits n p.rest)
    (hn : n ≠ 0) (hunread : p.rest.length ≤ unread.length) :
    ∃ c rest, unread = c :: rest ∧ (p.advance n).rest.length ≤ rest.length := by
  have hlt := length_dropBytes_lt h hn
  cases unread with
  | nil =>
      simp only [List.length_nil] at hunread
      omega
  | cons c rest =>
      refine ⟨c, rest, rfl, ?_⟩
      simp only [Place.advance, List.length_cons] at hunread ⊢
      omega

namespace Place

@[simp] theorem advance_zero (p : Place) : p.advance 0 = p := by
  simp [advance, dropBytes_zero]

theorem advance_advance {p : Place} {m n : Nat} (hm : Splits m p.rest)
    (hn : Splits n (p.advance m).rest) : (p.advance m).advance n = p.advance (m + n) := by
  have hrest := dropBytes_dropBytes hm hn
  simp [advance, hrest, Nat.add_assoc]

theorem past_eq_advance {p : Place} {c : Char} {rest : List Char} (h : p.rest = c :: rest) :
    p.past c rest = p.advance c.utf8Size := by
  have hdrop := dropBytes_byteLength_append [c] rest
  simp only [byteLength_cons, byteLength_nil, Nat.add_zero, List.cons_append, List.nil_append]
    at hdrop
  simp [past, advance, h, hdrop]

theorem splits_of_rest {p : Place} {c : Char} {rest : List Char} (h : p.rest = c :: rest) :
    Splits c.utf8Size p.rest := by
  rw [h]
  exact Splits.head c rest

namespace IsIn

variable {p : Place} {text : List Char}

theorem advance (h : p.IsIn text) {n : Nat} (hn : Splits n p.rest) : (p.advance n).IsIn text := by
  obtain ⟨before, htext, hoffset⟩ := h
  obtain ⟨front, hrest, hfront⟩ := hn.eq_append_dropBytes
  refine ⟨before ++ front, ?_, ?_⟩
  · rw [List.append_assoc]
    change text = before ++ (front ++ dropBytes n p.rest)
    rw [← hrest]
    exact htext
  · rw [byteLength_append, ← hoffset, hfront]
    rfl

theorem past (h : p.IsIn text) {c : Char} {rest : List Char} (hrest : p.rest = c :: rest) :
    (p.past c rest).IsIn text := by
  rw [past_eq_advance hrest]
  exact h.advance (splits_of_rest hrest)

theorem eq_of_offset_eq {q : Place} (hp : p.IsIn text) (hq : q.IsIn text)
    (h : p.offset = q.offset) : p = q := by
  obtain ⟨before, htext, hbefore⟩ := hp
  obtain ⟨before', htext', hbefore'⟩ := hq
  have hp' := dropBytes_byteLength_append before p.rest
  have hq' := dropBytes_byteLength_append before' q.rest
  rw [← htext, ← hbefore] at hp'
  rw [← htext', ← hbefore', ← h] at hq'
  cases p
  cases q
  simp_all

end IsIn

theorem at?_go_eq_some_iff (offset : Nat) {p q : Place} :
    at?.go offset p p.rest = some q ↔
      q.offset = offset ∧ ∃ n, Splits n p.rest ∧ q = p.advance n := by
  obtain ⟨start, rest⟩ := p
  induction rest generalizing start with
  | nil =>
      simp only [at?.go]
      constructor
      · intro h
        split at h
        · next heq =>
            cases h
            exact ⟨heq, 0, Splits.zero [], (advance_zero _).symm⟩
        · cases h
      · rintro ⟨hoffset, n, hn, rfl⟩
        obtain rfl := hn.eq_zero_of_nil
        rw [advance_zero] at hoffset ⊢
        rw [if_pos hoffset]
  | cons c cs ih =>
      have hpast : (⟨start, c :: cs⟩ : Place).past c cs = ⟨start + c.utf8Size, cs⟩ := rfl
      have hadvance := past_eq_advance (p := ⟨start, c :: cs⟩) rfl
      simp only [at?.go]
      by_cases heq : start = offset
      · rw [if_pos heq]
        constructor
        · intro h
          cases h
          exact ⟨heq, 0, Splits.zero _, (advance_zero _).symm⟩
        · rintro ⟨hoffset, n, -, rfl⟩
          have hzero : n = 0 := by
            simp only [advance] at hoffset
            omega
          rw [hzero, advance_zero]
      · rw [if_neg heq]
        by_cases hlt : offset < start
        · rw [if_pos hlt]
          constructor
          · intro h
            cases h
          · rintro ⟨hoffset, n, -, rfl⟩
            simp only [advance] at hoffset
            omega
        -- the offset lies behind the first character, which every way to it has to pass
        · rw [if_neg hlt, hpast, ih]
          constructor
          · rintro ⟨hoffset, n, hn, rfl⟩
            refine ⟨hoffset, c.utf8Size + n, hn.cons c, ?_⟩
            rw [← hpast, hadvance]
            refine advance_advance (Splits.head c cs) ?_
            rw [← hadvance]
            exact hn
          · rintro ⟨hoffset, n, ⟨front, back, htext, rfl⟩, rfl⟩
            cases front with
            | nil =>
                simp only [advance, byteLength_nil] at hoffset
                omega
            | cons d front =>
                simp only [List.cons_append, List.cons.injEq] at htext
                obtain ⟨rfl, rfl⟩ := htext
                have hn : Splits (byteLength front) (front ++ back) := ⟨front, back, rfl, rfl⟩
                refine ⟨hoffset, byteLength front, hn, ?_⟩
                rw [byteLength_cons, ← hpast, hadvance]
                refine (advance_advance (Splits.head c _) ?_).symm
                rw [← hadvance]
                exact hn

/-- The place found at an offset is the one that splits the text there. -/
theorem at?_eq_some_iff {text : List Char} {offset : Nat} {p : Place} :
    at? text offset = some p ↔ p.IsIn text ∧ p.offset = offset := by
  have hgo := at?_go_eq_some_iff offset (p := ⟨0, text⟩) (q := p)
  change at?.go offset ⟨0, text⟩ text = some p ↔ _
  rw [hgo, And.comm]
  refine and_congr_left fun _ => ?_
  constructor
  · rintro ⟨n, hn, rfl⟩
    exact (isIn_start text).advance hn
  · intro hp
    obtain ⟨before, htext, hbefore⟩ := hp
    have hsplit : Splits p.offset text := ⟨before, p.rest, htext, hbefore.symm⟩
    refine ⟨p.offset, hsplit, ?_⟩
    refine IsIn.eq_of_offset_eq ⟨before, htext, hbefore⟩ ((isIn_start text).advance hsplit) ?_
    simp [advance]

end Place

end Peg
