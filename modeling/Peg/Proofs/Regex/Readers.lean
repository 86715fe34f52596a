import Peg.Proofs.Regex.Enclosed

/-!
# Readers of patterns inside a group

Every reader of the written form of regular expressions finds the same with a closing parenthesis
behind its text. Those that stop at the end of their text too are given at least as much fuel as the
text is long.
-/

namespace Peg.Regex.Pattern

variable {lost : Prop} {α β ρ σ : Type} {cs cs' rest rest' : List Char} {n m fuel fuel' : Nat}
  {flags : Flags}

/-! ## Escapes -/

theorem bracedHex?_agrees (h : Enclosed lost cs cs') (hfuel : fuel ≤ fuel') (some? : Bool)
    (value : Nat) :
    Agrees (Alike lost cs.length) (bracedHex? flags fuel some? value cs)
      (bracedHex? flags fuel' some? value cs') := by
  induction fuel generalizing fuel' some? value cs cs' with
  | zero => exact .none
  | succ fuel ih =>
      obtain ⟨fuel', rfl⟩ := Nat.exists_eq_succ_of_ne_zero (by omega : fuel' ≠ 0)
      have hskip := h.skip flags
      have hshort := length_skip_le flags cs
      unfold bracedHex?
      generalize flags.skip cs = s, flags.skip cs' = s' at hskip hshort ⊢
      cases hskip with
      | swallowed | closed => exact .none
      | @cons c rest rest' _ hrest =>
          have hle : rest.length ≤ cs.length := Nat.le_of_succ_le hshort
          split
          · next heq => cases heq
          · next heq =>
              cases heq
              show Agrees _ (if _ then _ else _) (if _ then _ else _)
              split
              · exact .withRest hle hrest
              · exact .none
          · next heq =>
              cases heq
              simp only []
              exact Agrees.bind .rfl fun digit _ hdigit =>
                hdigit ▸ (ih hrest (by omega) _ _).mono fun _ _ hx => hx.mono hle

theorem fixedHex?_agrees (h : Enclosed lost cs cs') (width value : Nat) :
    Agrees (Alike lost cs.length) (fixedHex? flags width value cs)
      (fixedHex? flags width value cs') := by
  induction width generalizing value cs cs' with
  | zero => exact .withRest (Nat.le_refl _) h
  | succ width ih =>
      have hskip := h.skip flags
      have hshort := length_skip_le flags cs
      unfold fixedHex?
      generalize flags.skip cs = s, flags.skip cs' = s' at hskip hshort ⊢
      cases hskip with
      | swallowed | closed => exact .none
      | @cons c rest rest' _ hrest =>
          exact Agrees.bind .rfl fun digit _ hdigit =>
            hdigit ▸ (ih hrest _).mono fun _ _ hx => hx.mono (Nat.le_of_succ_le hshort)

theorem hex?_agrees (h : Enclosed lost cs cs') (hfuel : fuel ≤ fuel') (width : Nat) :
    Agrees (Alike lost cs.length) (hex? fuel flags width cs) (hex? fuel' flags width cs') := by
  have unbraced : ∀ {s s'}, Enclosed lost s s' → s.length ≤ cs.length →
      Agrees (Alike lost cs.length)
        (fixedHex? flags width 0 s >>= fun x =>
          if width = 2 && !flags.unicode && 128 ≤ x.1.toNat then none else some (.literal x.1, x.2))
        (fixedHex? flags width 0 s' >>= fun x =>
          if width = 2 && !flags.unicode && 128 ≤ x.1.toNat then none
          else some (Escaped.literal x.1, x.2)) := by
    intro s s' hs hshort
    refine (fixedHex?_agrees hs width 0).andThen fun c rest rest' hrest hs => ?_
    show Agrees _ (if _ then _ else _) (if _ then _ else _)
    split
    · exact .none
    · exact .some (.mk' (Nat.le_trans hrest hshort) hs)
  have hskip := h.skip flags
  have hshort := length_skip_le flags cs
  unfold hex?
  generalize flags.skip cs = s, flags.skip cs' = s' at hskip hshort ⊢
  obtain ⟨rest, rest', rfl, rfl, hrest⟩ | ⟨hne, hne'⟩ := hskip.starts (show '{' ≠ ')' by decide)
  · exact (bracedHex?_agrees hrest hfuel false 0).andThen fun c rest rest' hle hs =>
      .some (.mk' (Nat.le_trans hle (Nat.le_of_succ_le hshort)) hs)
  · split
    · exact absurd rfl (hne _)
    · exact unbraced hskip hshort

theorem bracedName?_agrees (h : Enclosed lost cs cs') (hfuel : fuel ≤ fuel') (read : List Char) :
    Agrees (Alike lost cs.length) (bracedName? flags fuel read cs)
      (bracedName? flags fuel' read cs') := by
  induction fuel generalizing fuel' read cs cs' with
  | zero => exact .none
  | succ fuel ih =>
      obtain ⟨fuel', rfl⟩ := Nat.exists_eq_succ_of_ne_zero (by omega : fuel' ≠ 0)
      have hskip := h.skip flags
      have hshort := length_skip_le flags cs
      unfold bracedName?
      generalize flags.skip cs = s, flags.skip cs' = s' at hskip hshort ⊢
      cases hskip with
      | swallowed | closed => exact .none
      | @cons c rest rest' _ hrest =>
          have hle : rest.length ≤ cs.length := Nat.le_of_succ_le hshort
          split
          · next heq => cases heq
          · next heq =>
              cases heq
              exact .some (.mk' hle hrest)
          · next heq =>
              cases heq
              simp only []
              exact (ih hrest (by omega) _).mono fun _ _ hx => hx.mono hle

/-- The name of a property: in braces, or a single character. -/
def propertyName? (fuel : Nat) (flags : Flags) : List Char → Option (List Char × List Char)
  | '{' :: rest => bracedName? flags fuel [] rest
  | c :: rest => some ([c], rest)
  | [] => none

theorem propertyClass?_eq (fuel : Nat) (flags : Flags) (negated : Bool) (cs : List Char) :
    propertyClass? fuel flags negated cs = (do
      let (name, rest) ← propertyName? fuel flags (flags.skip cs)
      if flags.unicode && name ≠ ['\\'] then
        let s := flags.fold (← property? name)
        some (.set (if negated then .compl s else s), rest)
      else none) := by
  unfold propertyClass? propertyName?
  cases flags.skip cs with
  | nil => rfl
  | cons c rest =>
      by_cases hbrace : c = '{'
      · subst hbrace
        rfl
      · simp only [Option.bind_some, Option.bind_eq_bind]

theorem propertyName?_agrees (h : Enclosed lost cs cs') (hfuel : fuel ≤ fuel') :
    Agrees (Alike lost cs.length) (propertyName? fuel flags cs)
      (propertyName? fuel' flags cs') := by
  unfold propertyName?
  cases h with
  | swallowed | closed => exact .none
  | @cons c rest rest' _ hrest =>
      split
      · next heq =>
          cases heq
          exact (bracedName?_agrees hrest hfuel []).mono fun _ _ hx => hx.mono (Nat.le_succ _)
      · next heq =>
          cases heq
          simp only []
          exact .some (.mk' (Nat.le_succ _) hrest)
      · next heq => cases heq

theorem propertyClass?_agrees (h : Enclosed lost cs cs') (hfuel : fuel ≤ fuel') (negated : Bool) :
    Agrees (Alike lost cs.length) (propertyClass? fuel flags negated cs)
      (propertyClass? fuel' flags negated cs') := by
  rw [propertyClass?_eq, propertyClass?_eq]
  refine (propertyName?_agrees (h.skip flags) hfuel).andThen fun name rest rest' hle hrest => ?_
  show Agrees _ (if _ then _ else _) (if _ then _ else _)
  split
  · exact Agrees.bind .rfl fun s _ hs =>
      hs ▸ .some (.mk' (Nat.le_trans hle (length_skip_le flags cs)) hrest)
  · exact .none

/-! ## Conditions on words -/

theorem lookName?_agrees (h : Enclosed lost cs cs') (hfuel : fuel ≤ fuel') (read : List Char) :
    Agrees (Alike lost cs.length) (lookName? flags fuel read cs)
      (lookName? flags fuel' read cs') := by
  induction fuel generalizing fuel' read cs cs' with
  | zero => exact .none
  | succ fuel ih =>
      obtain ⟨fuel', rfl⟩ := Nat.exists_eq_succ_of_ne_zero (by omega : fuel' ≠ 0)
      unfold lookName?
      cases h with
      | swallowed | closed => exact .none
      | @cons c rest rest' _ hrest =>
          split
          · next heq => cases heq
          · next heq =>
              cases heq
              exact .some (.mk' (Nat.le_succ _) hrest)
          · next heq =>
              cases heq
              simp only []
              split
              · exact (ih (hrest.skip flags) (by omega) _).mono fun _ _ hx =>
                  hx.mono (Nat.le_succ_of_le (length_skip_le flags rest))
              · exact .none

theorem boundary?_agrees (h : Enclosed lost cs cs') (hfuel : fuel ≤ fuel') :
    Agrees (Alike lost cs.length) (boundary? fuel flags cs) (boundary? fuel' flags cs') := by
  unfold boundary?
  obtain ⟨rest, rest', rfl, rfl, hrest⟩ | ⟨hne, hne'⟩ := h.starts (show '{' ≠ ')' by decide)
  · have hskip := hrest.skip flags
    have hshort := length_skip_le flags rest
    simp only []
    generalize flags.skip rest = s, flags.skip rest' = s' at hskip hshort ⊢
    cases hskip with
    | swallowed | closed => exact .none
    | cons hc hinner =>
        simp only []
        split
        · refine (lookName?_agrees (.cons hc hinner) hfuel []).andThen
            fun name left left' hle hleft => ?_
          have hle : left.length ≤ ('{' :: rest).length :=
            Nat.le_trans hle (Nat.le_succ_of_le hshort)
          simp only []
          split
          case h_5 => exact .none
          all_goals exact .some (.mk' hle hleft)
        · exact .some (.mk' (Nat.le_refl _) h)
  · split
    · exact absurd rfl (hne _)
    · exact .some (.mk' (Nat.le_refl _) h)

/-! ## All escapes -/

theorem escape?_agrees (h : Enclosed lost cs cs') (hfuel : fuel ≤ fuel') :
    Agrees (Alike lost cs.length) (escape? fuel flags cs) (escape? fuel' flags cs') := by
  unfold escape?
  cases h with
  | swallowed => exact .none
  | closed => exact .none
  | @cons c rest rest' hc hrest =>
      have hle : rest.length ≤ (c :: rest).length := Nat.le_succ _
      simp only []
      split
      case h_1 | h_2 | h_3 =>
        exact (hex?_agrees hrest hfuel _).mono fun _ _ hx => hx.mono hle
      case h_4 | h_5 => exact (propertyClass?_agrees hrest hfuel _).mono fun _ _ hx => hx.mono hle
      case h_6 | h_7 | h_8 | h_9 | h_10 | h_11 => exact .withRest hle hrest
      case h_20 =>
        have hboundary : Agrees _ (boundary? fuel flags rest) (boundary? fuel' flags rest') :=
          boundary?_agrees hrest hfuel
        exact (hboundary.mapFirst fun b => Escaped.look (.word b flags.unicode)).mono
          fun _ _ hx => hx.mono hle
      case h_24 =>
        split
        · exact .some (.mk' hle hrest)
        · exact .none
      all_goals exact .some (.mk' hle hrest)

/-! ## Classes in brackets -/

theorem leadingHyphens_alike (flags : Flags) (h : Enclosed lost cs cs') (hlength : cs.length ≤ fuel)
    (hfuel : fuel ≤ fuel') (b : Bracket) :
    Alike lost cs.length (leadingHyphens flags fuel b cs) (leadingHyphens flags fuel' b cs') := by
  induction fuel generalizing fuel' b cs cs' with
  | zero =>
      cases h with
      | swallowed hlost => cases fuel' <;> exact .mk' (Nat.le_refl _) (.swallowed hlost)
      | closed => cases fuel' <;> exact .mk' (Nat.le_refl _) .closed
      | cons => exact absurd hlength (Nat.not_succ_le_zero _)
  | succ fuel ih =>
      obtain ⟨fuel', rfl⟩ := Nat.exists_eq_succ_of_ne_zero (by omega : fuel' ≠ 0)
      unfold leadingHyphens
      obtain ⟨rest, rest', rfl, rfl, hrest⟩ | ⟨hne, hne'⟩ := h.starts (show '-' ≠ ')' by decide)
      · have hshort := length_skip_le flags rest
        have hle := Nat.le_of_succ_le_succ hlength
        exact (ih (hrest.skip flags) (Nat.le_trans hshort hle)
          (Nat.le_of_succ_le_succ hfuel) _).mono (Nat.le_succ_of_le hshort)
      · split
        · exact absurd rfl (hne _)
        · exact .mk' (Nat.le_refl _) h

/-- The text after a bracket without the mark of negation, and whether the mark was there. -/
def unsigned (flags : Flags) : List Char → Bool × List Char
  | '^' :: rest => (true, flags.skip rest)
  | cs => (false, cs)

/-- The bracket with a closing bracket that nothing stands before. -/
def leadingBracket (flags : Flags) (b : Bracket) (cs : List Char) : Bracket × List Char :=
  match b.sets, cs with
  | [], ']' :: rest => (b.addChar ']', flags.skip rest)
  | _, cs => (b, cs)

theorem openBracket_eq (fuel : Nat) (flags : Flags) (cs : List Char) :
    openBracket fuel flags cs =
      let signed := unsigned flags (flags.skip cs)
      let hyphens := leadingHyphens flags fuel { negated := signed.1 } signed.2
      leadingBracket flags hyphens.1 hyphens.2 := rfl

theorem unsigned_alike (flags : Flags) (h : Enclosed lost cs cs') :
    Alike lost cs.length (unsigned flags cs) (unsigned flags cs') := by
  unfold unsigned
  obtain ⟨rest, rest', rfl, rfl, hrest⟩ | ⟨hne, hne'⟩ := h.starts (show '^' ≠ ')' by decide)
  · exact .mk' (Nat.le_succ_of_le (length_skip_le flags rest)) (hrest.skip flags)
  · split
    · exact absurd rfl (hne _)
    · exact .mk' (Nat.le_refl _) h

theorem leadingBracket_alike (flags : Flags) (h : Enclosed lost cs cs') (b : Bracket) :
    Alike lost cs.length (leadingBracket flags b cs) (leadingBracket flags b cs') := by
  unfold leadingBracket
  cases b.sets with
  | cons s sets => exact .mk' (Nat.le_refl _) h
  | nil =>
      obtain ⟨rest, rest', rfl, rfl, hrest⟩ | ⟨hne, hne'⟩ := h.starts (show ']' ≠ ')' by decide)
      · exact .mk' (Nat.le_succ_of_le (length_skip_le flags rest)) (hrest.skip flags)
      · split
        · exact absurd rfl (hne _)
        · split
          · exact absurd rfl (hne' _)
          · exact .mk' (Nat.le_refl _) h

theorem openBracket_alike (flags : Flags) (h : Enclosed lost cs cs') (hlength : cs.length ≤ fuel)
    (hfuel : fuel ≤ fuel') :
    Alike lost cs.length (openBracket fuel flags cs) (openBracket fuel' flags cs') := by
  have hshort := length_skip_le flags cs
  have hunsigned := unsigned_alike flags (h.skip flags)
  have hhyphens := leadingHyphens_alike flags hunsigned.enclosed
    (Nat.le_trans hunsigned.short (Nat.le_trans hshort hlength)) hfuel
    { negated := (unsigned flags (flags.skip cs)).1 }
  have hbracket := leadingBracket_alike flags hhyphens.enclosed
    (leadingHyphens flags fuel { negated := (unsigned flags (flags.skip cs)).1 }
      (unsigned flags (flags.skip cs)).2).1
  simp only [openBracket_eq, hunsigned.same, hhyphens.same]
  exact hbracket.mono
    (Nat.le_trans hhyphens.short (Nat.le_trans hunsigned.short hshort))

/-- The class of a name that is closed in the text after it. -/
def afterName? (negated : Bool) (name cs : List Char) :
    Option (Bool × Unicode.Ranges × List Char) :=
  match cs with
  | ':' :: ']' :: rest => (CharSet.asciiClass? (String.ofList name)).map (negated, ·, rest)
  | _ => none

theorem afterName?_rel (h : Enclosed lost cs cs') (hn : cs.length ≤ n) (negated : Bool)
    (name : List Char) :
    Option.Rel (AlikeBoth lost n) (afterName? negated name cs) (afterName? negated name cs') := by
  unfold afterName?
  split
  · next heq =>
      cases h with
      | cons _ h =>
          cases h with
          | cons _ hrest =>
              cases CharSet.asciiClass? (String.ofList name) with
              | none => exact .none
              | some s => exact .some ⟨rfl, .mk' (Nat.le_of_succ_le (Nat.le_of_succ_le hn)) hrest⟩
  · next hne =>
      split
      · next rest heq =>
          obtain ⟨t, rfl, ht⟩ := h.of_cons (by decide)
          obtain ⟨u, rfl, hu⟩ := ht.of_cons (by decide)
          exact absurd rfl (hne _)
      · exact .none

theorem asciiName?_cons (cs : List Char) :
    asciiName? (':' :: cs) =
      let signed := unsigned {} cs
      afterName? signed.1 (signed.2.takeWhile (· ≠ ':')) (signed.2.dropWhile (· ≠ ':')) := rfl

theorem asciiName?_rel (h : Enclosed lost cs cs') :
    Option.Rel (AlikeBoth lost cs.length) (asciiName? cs) (asciiName? cs') := by
  obtain ⟨rest, rest', rfl, rfl, hrest⟩ | ⟨hne, hne'⟩ := h.starts (show ':' ≠ ')' by decide)
  · have hsigned := unsigned_alike {} hrest
    simp only [asciiName?_cons, hsigned.same]
    obtain ⟨hnil, hnil'⟩ | ⟨hname, hafter⟩ :=
        hsigned.enclosed.span (p := (· ≠ ':')) (by decide)
    · rw [hnil, hnil']
      exact .none
    · rw [hname]
      refine afterName?_rel hafter ?_ _ _
      exact Nat.le_trans (List.dropWhile_suffix _).length_le (Nat.le_succ_of_le hsigned.short)
  · unfold asciiName?
    split
    · exact absurd rfl (hne _)
    · exact .none

theorem classItem?_agrees (h : Enclosed lost cs cs') (hfuel : fuel ≤ fuel') :
    Agrees (Alike lost (cs.length - 1)) (classItem? fuel flags cs)
      (classItem? fuel' flags cs') := by
  unfold classItem?
  cases h with
  | swallowed | closed => exact .none
  | cons hc hrest =>
      split
      · next heq => cases heq
      · next heq =>
          cases heq
          exact escape?_agrees hrest hfuel
      · next heq =>
          cases heq
          simp only []
          exact .some (.mk' (Nat.le_refl _) hrest)

theorem classRange?_agrees (h : Enclosed lost cs cs') (hfuel : fuel ≤ fuel') :
    Agrees (Alike lost (cs.length - 1)) (classRange? fuel flags cs)
      (classRange? fuel' flags cs') := by
  unfold classRange?
  refine (classItem?_agrees h hfuel).andThen fun item rest rest' hle hrest => ?_
  have hskip := hrest.skip flags
  have hshort := Nat.le_trans (length_skip_le flags rest) hle
  simp only []
  generalize flags.skip rest = s, flags.skip rest' = s' at hskip hshort ⊢
  have alone : Agrees (Alike lost (cs.length - 1)) (single? item >>= fun set => some (set, s))
      (single? item >>= fun set => some (set, s')) :=
    .bind .rfl fun set _ hset => hset ▸ .some (.mk' hshort hskip)
  obtain ⟨t, t', rfl, rfl, ht⟩ | ⟨hne, hne'⟩ := hskip.starts (show '-' ≠ ')' by decide)
  · have hclose := ht.peek_eq_some_iff flags (show ']' ≠ ')' by decide) (by decide) (by decide)
    have hagain := ht.peek_eq_some_iff flags (show '-' ≠ ')' by decide) (by decide) (by decide)
    simp only [hclose, hagain]
    split
    · exact alone
    · refine (classItem?_agrees (ht.skip flags) hfuel).andThen fun last u u' hu hlast => ?_
      have hlength : u.length ≤ cs.length - 1 := by
        have hle := length_skip_le flags t
        simp only [List.length_cons] at hshort
        omega
      simp only []
      split
      · split
        · exact .some (.mk' hlength hlast)
        · exact .none
      · exact .none
  · split
    · exact absurd rfl (hne _)
    · exact alone

theorem readClass_agrees (h : Enclosed lost cs cs') (hlength : cs.length ≤ fuel)
    (hfuel : fuel ≤ fuel') (b : Bracket) (outer : List Bracket) :
    Agrees (AlikeBoth lost cs.length) (readClass flags fuel b outer cs)
      (readClass flags fuel' b outer cs') := by
  induction fuel generalizing fuel' b outer cs cs' with
  | zero => exact .none
  | succ fuel ih =>
      obtain ⟨fuel', rfl⟩ := Nat.exists_eq_succ_of_ne_zero (by omega : fuel' ≠ 0)
      have hskip := h.skip flags
      have hshort := length_skip_le flags cs
      have again : ∀ {rest rest'}, rest.length < cs.length → Enclosed lost rest rest' → ∀ b outer,
          Agrees (AlikeBoth lost cs.length) (readClass flags fuel b outer rest)
            (readClass flags fuel' b outer rest') :=
        fun hlt hrest b outer => (ih hrest (by omega) (by omega) b outer).mono fun _ _ hx =>
          ⟨hx.1, hx.2.mono (Nat.le_of_lt hlt)⟩
      unfold readClass
      generalize flags.skip cs = s, flags.skip cs' = s' at hskip hshort ⊢
      split
      · exact .none
      · next rest =>
          cases hskip with
          | @cons _ _ rest' _ hrest =>
          have hname := asciiName?_rel hrest
          simp only []
          generalize asciiName? rest = name, asciiName? rest' = name' at hname ⊢
          cases hname with
          | none =>
              have hopen := openBracket_alike flags hrest
                (show rest.length ≤ fuel by grind) (show fuel ≤ fuel' by omega)
              simp only [hopen.same]
              exact again (by have := hopen.short; grind) hopen.enclosed _ _
          | @some x x' hx =>
              obtain ⟨negated, s, left⟩ := x
              obtain ⟨negated', s', left'⟩ := x'
              obtain ⟨hnegated, hs⟩ := hx
              cases hnegated
              cases hs.same
              have := hs.short
              exact .bind .rfl fun s _ heq => heq ▸ again (by grind) hs.enclosed _ _
      · next rest =>
          cases hskip with
          | @cons _ _ rest' _ hrest =>
          refine .bind .rfl fun closed _ heq => ?_
          cases heq
          simp only []
          cases outer with
          | nil => exact .some ⟨rfl, .mk' (by grind) hrest⟩
          | cons parent outer => exact again (by grind) hrest _ _
      · next rest =>
          cases hskip with
          | cons _ hnext =>
          cases hnext with
          | cons _ hrest => exact again (by grind) hrest _ _
      · next rest =>
          cases hskip with
          | cons _ hnext =>
          cases hnext with
          | cons _ hrest => exact again (by grind) hrest _ _
      · next rest =>
          cases hskip with
          | cons _ hnext =>
          cases hnext with
          | cons _ hrest => exact again (by grind) hrest _ _
      · next hnil hopen hclose hinter hdiff hsymm =>
          -- what the longer text begins with begins the shorter one
          split
          · cases hskip
            exact absurd rfl hnil
          · obtain ⟨t, rfl, _⟩ := hskip.of_cons (by decide)
            exact absurd rfl (hopen t)
          · obtain ⟨t, rfl, _⟩ := hskip.of_cons (by decide)
            exact absurd rfl (hclose t)
          · obtain ⟨t, rfl, ht⟩ := hskip.of_cons (by decide)
            obtain ⟨u, rfl, _⟩ := ht.of_cons (by decide)
            exact absurd rfl (hinter u)
          · obtain ⟨t, rfl, ht⟩ := hskip.of_cons (by decide)
            obtain ⟨u, rfl, _⟩ := ht.of_cons (by decide)
            exact absurd rfl (hdiff u)
          · obtain ⟨t, rfl, ht⟩ := hskip.of_cons (by decide)
            obtain ⟨u, rfl, _⟩ := ht.of_cons (by decide)
            exact absurd rfl (hsymm u)
          · refine (classRange?_agrees hskip (by omega)).andThen fun set rest rest' hle hrest => ?_
            refine .bind .rfl fun allowed _ heq => heq ▸ again ?_ hrest _ _
            have := List.length_pos_iff.2 hnil
            omega

theorem class?_agrees (h : Enclosed lost cs cs') (hlength : cs.length ≤ fuel)
    (hfuel : fuel ≤ fuel') :
    Agrees (AlikeBoth lost cs.length) (class? fuel flags cs) (class? fuel' flags cs') := by
  have hopen := openBracket_alike flags h hlength hfuel
  unfold class?
  simp only [hopen.same]
  exact (readClass_agrees hopen.enclosed (Nat.le_trans hopen.short hlength) hfuel _ _).mono
    fun _ _ hx => ⟨hx.1, hx.2.mono hopen.short⟩

/-! ## Repetitions -/

theorem digits_alike (flags : Flags) (h : Enclosed lost cs cs') (hlength : cs.length ≤ fuel)
    (hfuel : fuel ≤ fuel') (read : List Char) :
    Alike lost cs.length (digits flags fuel read cs) (digits flags fuel' read cs') := by
  induction fuel generalizing fuel' read cs cs' with
  | zero =>
      cases h with
      | swallowed hlost => cases fuel' <;> exact .mk' (Nat.le_refl _) (.swallowed hlost)
      | closed => cases fuel' <;> exact .mk' (Nat.le_refl _) .closed
      | cons => exact absurd hlength (Nat.not_succ_le_zero _)
  | succ fuel ih =>
      obtain ⟨fuel', rfl⟩ := Nat.exists_eq_succ_of_ne_zero (by omega : fuel' ≠ 0)
      unfold digits
      cases h with
      | swallowed hlost => exact .mk' (Nat.le_refl _) (.swallowed hlost)
      | closed => exact .mk' (Nat.le_refl _) .closed
      | @cons c rest rest' hc hrest =>
          simp only []
          split
          · have hshort := length_skip_le flags rest
            exact (ih (hrest.skip flags) (Nat.le_trans hshort (Nat.le_of_succ_le_succ hlength))
              (Nat.le_of_succ_le_succ hfuel) _).mono (Nat.le_succ_of_le hshort)
          · exact .mk' (Nat.le_refl _) (.cons hc hrest)

theorem dropWhile_isSpace (h : Enclosed lost cs cs') :
    Enclosed lost (cs.dropWhile Unicode.isSpace) (cs'.dropWhile Unicode.isSpace) := by
  induction h with
  | swallowed hlost => exact .swallowed hlost
  | closed => exact .closed
  | cons hc h ih =>
      simp only [List.dropWhile_cons]
      split
      · exact ih
      · exact .cons hc h

theorem count?_agrees (h : Enclosed lost cs cs') (hlength : cs.length ≤ fuel)
    (hfuel : fuel ≤ fuel') :
    Agrees (Alike lost cs.length) (count? fuel flags cs) (count? fuel' flags cs') := by
  have hspace : ∀ cs : List Char, (cs.dropWhile Unicode.isSpace).length ≤ cs.length :=
    fun cs => (List.dropWhile_suffix _).length_le
  have hdigits := digits_alike flags (dropWhile_isSpace h)
    (Nat.le_trans (hspace cs) hlength) hfuel []
  have hrest := (dropWhile_isSpace hdigits.enclosed).skip flags
  have hshort := Nat.le_trans (length_skip_le flags _)
    (Nat.le_trans (hspace _) (Nat.le_trans hdigits.short (hspace cs)))
  unfold count?
  simp only [hdigits.same]
  split
  · exact .some (.mk' hshort hrest)
  · split
    · exact .some (.mk' hshort hrest)
    · exact .none

theorem bounds?_agrees (h : Enclosed lost cs cs') (hlength : cs.length ≤ fuel)
    (hfuel : fuel ≤ fuel') :
    Agrees (AlikeBoth lost cs.length) (bounds? fuel flags cs) (bounds? fuel' flags cs') := by
  have hshort := length_skip_le flags cs
  unfold bounds?
  refine (count?_agrees (h.skip flags) (Nat.le_trans hshort hlength) hfuel).andThen
    fun least s s' hs hskip => ?_
  simp only []
  split
  · next rest =>
      cases hskip with
      | cons _ hrest => exact .bind .rfl fun n _ hn => hn ▸ .some ⟨rfl, .mk' (by grind) hrest⟩
  · next rest =>
      cases hskip with
      | @cons _ _ rest' _ hrest =>
      have hcomma := hrest.skip flags
      have hlast := length_skip_le flags rest
      simp only []
      generalize flags.skip rest = t, flags.skip rest' = t' at hcomma hlast ⊢
      split
      · cases hcomma with
        | cons _ hrest => exact .bind .rfl fun n _ hn => hn ▸ .some ⟨rfl, .mk' (by grind) hrest⟩
      · next hbrace =>
          split
          · obtain ⟨u, rfl, _⟩ := hcomma.of_cons (by decide)
            exact absurd rfl (hbrace u)
          · refine .bind .rfl fun n _ hn => hn ▸ ?_
            refine (count?_agrees hcomma (by grind) hfuel).andThen fun most u u' hu hmost => ?_
            refine .bind .rfl fun m _ hm => hm ▸ ?_
            simp only []
            cases hmost with
            | swallowed | closed => exact .none
            | @cons c v v' _ hv =>
                split
                · next heq =>
                    cases heq
                    simp only []
                    split
                    · exact .some ⟨rfl, .mk' (by grind) hv⟩
                    · exact .none
                · exact .none
  · exact .none

theorem greed_alike (flags : Flags) (h : Enclosed lost cs cs') :
    Alike lost cs.length (greed flags cs) (greed flags cs') := by
  unfold greed
  obtain ⟨rest, rest', rfl, rfl, hrest⟩ | ⟨hne, hne'⟩ := h.starts (show '?' ≠ ')' by decide)
  · exact .mk' (Nat.le_succ _) hrest
  · split
    · exact absurd rfl (hne _)
    · exact .mk' (Nat.le_refl _) h

/-! ## Groups -/

theorem flagLetters?_agrees (h : Enclosed lost cs cs') (flags : Flags) (on : Bool)
    (seen : List Char) :
    Agrees (Alike lost cs.length) (flagLetters? flags on seen cs)
      (flagLetters? flags on seen cs') := by
  induction h generalizing flags on seen with
  | swallowed | closed => exact .none
  | @cons c cs cs' hc h ih =>
      have hle : cs.length ≤ (c :: cs).length := Nat.le_succ _
      have hagain : ∀ flags on seen, Agrees (Alike lost (c :: cs).length)
          (flagLetters? flags on seen cs) (flagLetters? flags on seen cs') :=
        fun flags on seen => (ih flags on seen).mono fun _ _ hx => hx.mono hle
      unfold flagLetters?
      split
      · split
        · exact .none
        · exact .some (.mk' hle h)
      · split
        · split
          · exact .none
          · exact .some (.mk' hle h)
        · split
          · exact .none
          · split
            · exact hagain flags false _
            · exact .bind .rfl fun flags _ heq => heq ▸ hagain flags on _

theorem groupName?_agrees (h : Enclosed lost cs cs') :
    Agrees (Alike lost cs.length) (groupName? cs) (groupName? cs') := by
  have hshort : (cs.dropWhile (· ≠ '>')).length ≤ cs.length := (List.dropWhile_suffix _).length_le
  unfold groupName?
  simp only []
  obtain ⟨hnil, hnil'⟩ | ⟨hname, hafter⟩ := h.span (p := (· ≠ '>')) (by decide)
  · rw [hnil]
    cases cs.takeWhile (· ≠ '>') <;> exact .none
  · rw [hname]
    generalize cs.dropWhile (· ≠ '>') = s, cs'.dropWhile (· ≠ '>') = s' at hafter hshort ⊢
    cases cs.takeWhile (· ≠ '>') with
    | nil => exact .none
    | cons first more =>
        cases hafter with
        | swallowed | closed => exact .none
        | cons _ hrest =>
            show Agrees _ (if _ then _ else _) (if _ then _ else _)
            split
            · exact .some (.mk' (Nat.le_of_succ_le hshort) hrest)
            · exact .none

theorem opening?_agrees (h : Enclosed lost cs cs') :
    Agrees (Alike lost cs.length) (opening? flags cs) (opening? flags cs') := by
  have named : ∀ {rest rest'}, rest.length ≤ cs.length → Enclosed lost rest rest' →
      Agrees (Alike lost cs.length) (opening?.named rest) (opening?.named rest') :=
    fun hle hrest =>
      ((groupName?_agrees hrest).mapFirst fun name => Opening.capture (some name)).mono
        fun _ _ hx => hx.mono hle
  have hskip := h.skip flags
  have hshort := length_skip_le flags cs
  unfold opening?
  generalize flags.skip cs = s, flags.skip cs' = s' at hskip hshort ⊢
  split
  · cases hskip with
    | cons _ hnext =>
    cases hnext with
    | cons _ hnext =>
    cases hnext with
    | cons _ hrest => exact named (by grind) hrest
  · cases hskip with
    | cons _ hnext =>
    cases hnext with
    | cons _ hrest => exact named (by grind) hrest
  · next hP hangle =>
      cases hskip with
      | cons _ hrest =>
      split
      · next heq =>
          cases heq
          obtain ⟨t, rfl, ht⟩ := hrest.of_cons (by decide)
          obtain ⟨u, rfl, _⟩ := ht.of_cons (by decide)
          exact absurd rfl (hP u)
      · next heq =>
          cases heq
          obtain ⟨t, rfl, _⟩ := hrest.of_cons (by decide)
          exact absurd rfl (hangle t)
      · next heq =>
          cases heq
          exact (flagLetters?_agrees hrest flags true []).mono fun _ _ hx =>
            hx.mono (Nat.le_of_succ_le hshort)
      · next hnot => exact absurd rfl (hnot _)
  · next hP hangle hmark =>
      split
      · obtain ⟨t, rfl, _⟩ := hskip.of_cons (by decide)
        exact absurd rfl (hmark t)
      · obtain ⟨t, rfl, _⟩ := hskip.of_cons (by decide)
        exact absurd rfl (hmark t)
      · obtain ⟨t, rfl, _⟩ := hskip.of_cons (by decide)
        exact absurd rfl (hmark t)
      · exact .some (.mk' hshort hskip)

end Peg.Regex.Pattern
