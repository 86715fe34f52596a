import Peg.Proofs.Json.Token

/-!
# Texts of JSON strings

What the characters between the quotes of a string stand for, as RFC 8259 has it: an escaped code unit
stands for the character of its number, unless it is a surrogate, and a high surrogate with a low one
behind it stands for one character. Main statement: `string?_eq_some_iff`, a string is evaluated to the
text that it stands for, and only a surrogate without the other half of its pair leaves it without one.
-/

namespace Peg.Json

def hexValue (c : Char) : Nat :=
  if c.isDigit then c.toNat - '0'.toNat
  else if 'a' ≤ c then c.toNat - 'a'.toNat + 10
  else c.toNat - 'A'.toNat + 10

/-- Four hexadecimal digits that write a number. -/
def IsCodeUnit (u : List Char) (n : Nat) : Prop :=
  ∃ a b c d, u = [a, b, c, d] ∧ IsHexDigit a ∧ IsHexDigit b ∧ IsHexDigit c ∧ IsHexDigit d ∧
    n = ((hexValue a * 16 + hexValue b) * 16 + hexValue c) * 16 + hexValue d

def pairedChar (high low : Nat) : Char :=
  Char.ofNat (0x10000 + (high - 0xd800) * 0x400 + (low - 0xdc00))

/-- What stands between the quotes of a string stands for a text. -/
inductive StandsFor : List Char → List Char → Prop
  | nil : StandsFor [] []
  | unescaped {c rest cs} : IsUnescaped c → StandsFor rest cs → StandsFor (c :: rest) (c :: cs)
  | escape {c e rest cs} : shortEscape? c = some e → StandsFor rest cs →
      StandsFor ('\\' :: c :: rest) (e :: cs)
  | codePoint {u n rest cs} : IsCodeUnit u n → isHighSurrogate n = false → isLowSurrogate n = false →
      StandsFor rest cs → StandsFor ('\\' :: 'u' :: (u ++ rest)) (Char.ofNat n :: cs)
  | pair {u high v low rest cs} : IsCodeUnit u high → isHighSurrogate high = true →
      IsCodeUnit v low → isLowSurrogate low = true → StandsFor rest cs →
      StandsFor ('\\' :: 'u' :: (u ++ '\\' :: 'u' :: (v ++ rest))) (pairedChar high low :: cs)

theorem ne_u_of_isShortEscape {c : Char} (h : IsShortEscape c) : c ≠ 'u' := by
  rintro rfl
  exact absurd h (by decide)

/-! ## Code units -/

section CodeUnits

variable {u v : List Char} {n high low : Nat}

theorem hexDigit?_eq_some {c : Char} (h : IsHexDigit c) :
    Regex.Pattern.hexDigit? c = some (hexValue c) := by
  simp only [IsHexDigit, isDigit_iff, Char.le_def, UInt32.le_iff_toNat_le, Char.toNat, Char.reduceVal,
    UInt32.reduceToNat] at h
  simp only [Regex.Pattern.hexDigit?, hexValue, isDigit_iff, Char.le_def, UInt32.le_iff_toNat_le,
    Bool.and_eq_true, decide_eq_true_eq, Char.toNat, Char.reduceVal, UInt32.reduceToNat]
  split_ifs <;> first | rfl | omega

theorem exists_isCodeUnit {a b c d : Char} (ha : IsHexDigit a) (hb : IsHexDigit b)
    (hc : IsHexDigit c) (hd : IsHexDigit d) : ∃ n, IsCodeUnit [a, b, c, d] n :=
  ⟨_, a, b, c, d, rfl, ha, hb, hc, hd, rfl⟩

theorem IsCodeUnit.hex4?_append (h : IsCodeUnit u n) (rest : List Char) :
    hex4? (u ++ rest) = some (n, rest) := by
  obtain ⟨a, b, c, d, rfl, ha, hb, hc, hd, rfl⟩ := h
  simp only [List.cons_append, List.nil_append, hex4?, hexDigit?_eq_some ha, hexDigit?_eq_some hb,
    hexDigit?_eq_some hc, hexDigit?_eq_some hd, Option.bind_eq_bind, Option.bind_some]

theorem codePoint?_single (hu : IsCodeUnit u n) (hhigh : isHighSurrogate n = false)
    (hlow : isLowSurrogate n = false) (rest : List Char) :
    codePoint? (u ++ rest) = some (Char.ofNat n, rest) := by
  simp [codePoint?, hu.hex4?_append, hhigh, hlow]

theorem codePoint?_pair (hu : IsCodeUnit u high) (hhigh : isHighSurrogate high = true)
    (hv : IsCodeUnit v low) (hlow : isLowSurrogate low = true) (rest : List Char) :
    codePoint? (u ++ '\\' :: 'u' :: (v ++ rest)) = some (pairedChar high low, rest) := by
  simp [codePoint?, hu.hex4?_append, hv.hex4?_append, hhigh, hlow, pairedChar]

theorem codePoint?_eq_some {rest back : List Char} {c : Char} (hu : IsCodeUnit u n)
    (hrest : IsBody rest) (h : codePoint? (u ++ (rest ++ ['"'])) = some (c, back)) :
    isHighSurrogate n = false ∧ isLowSurrogate n = false ∧ back = rest ++ ['"'] ∨
      isHighSurrogate n = true ∧ ∃ v low rest', rest = '\\' :: 'u' :: (v ++ rest') ∧
        IsCodeUnit v low ∧ isLowSurrogate low = true ∧ IsBody rest' ∧ back = rest' ++ ['"'] := by
  rw [codePoint?, hu.hex4?_append] at h
  cases hhigh : isHighSurrogate n with
  | false =>
      cases hlow : isLowSurrogate n with
      | false =>
          simp only [hhigh, hlow, Option.bind_eq_bind, Option.bind_some, Bool.false_eq_true, if_false,
            Option.some.injEq, Prod.mk.injEq] at h
          exact .inl ⟨rfl, rfl, h.2.symm⟩
      | true => simp [hhigh, hlow] at h
  | true =>
      cases hrest with
      | nil => simp [hhigh] at h
      | unescaped hc _ => simp [hhigh, hc.2.2] at h
      | escape hc _ => simp [hhigh, ne_u_of_isShortEscape hc] at h
      | @codePoint a b c d rest ha hb hc hd hrest =>
          obtain ⟨low, hv⟩ := exists_isCodeUnit ha hb hc hd
          have hhex := hv.hex4?_append (rest ++ ['"'])
          simp only [List.cons_append, List.nil_append] at hhex
          cases hlow : isLowSurrogate low with
          | false => simp [hhigh, hhex, hlow] at h
          | true =>
              simp only [hhigh, hlow, List.cons_append, hhex, Option.bind_eq_bind, Option.bind_some,
                if_true, Option.some.injEq, Prod.mk.injEq] at h
              exact .inr ⟨rfl, _, low, rest, rfl, hv, hlow, hrest, h.2.symm⟩

end CodeUnits

/-! ## Strings -/

section Rounds

variable {c : Char} {rest : List Char} (fuel : Nat) (done : List Char)

theorem unescape?_close : unescape? (fuel + 1) done ['"'] = some done.reverse := rfl

theorem unescape?_unescaped (h : IsUnescaped c) :
    unescape? (fuel + 1) done (c :: rest) = unescape? fuel (c :: done) rest := by
  obtain ⟨hle, hquote, hbackslash⟩ := h
  have hlt : ¬ c < ' ' := Char.not_lt.2 hle
  simp [unescape?, hquote, hbackslash, hlt]

theorem unescape?_escape (h : c ≠ 'u') :
    unescape? (fuel + 1) done ('\\' :: c :: rest) =
      (shortEscape? c).bind fun e => unescape? fuel (e :: done) rest := by
  simp [unescape?]

theorem unescape?_codePoint :
    unescape? (fuel + 1) done ('\\' :: 'u' :: rest) =
      (codePoint? rest).bind fun read => unescape? fuel (read.1 :: done) read.2 := by
  simp [unescape?]

end Rounds

theorem unescape?_eq_some {body cs : List Char} (h : StandsFor body cs) {fuel : Nat}
    (hfuel : body.length < fuel) (done : List Char) :
    unescape? fuel done (body ++ ['"']) = some (done.reverse ++ cs) := by
  induction h generalizing fuel done with
  | nil =>
      obtain ⟨fuel, rfl⟩ := Nat.exists_eq_add_of_lt hfuel
      rw [List.append_nil]
      exact unescape?_close _ done
  | unescaped hc _ ih =>
      obtain ⟨fuel, rfl⟩ := Nat.exists_eq_add_of_lt hfuel
      rw [List.cons_append, unescape?_unescaped _ done hc, ih (by simp only [List.length_cons]; omega)]
      simp
  | @escape c e rest cs he _ ih =>
      obtain ⟨fuel, rfl⟩ := Nat.exists_eq_add_of_lt hfuel
      have hne : c ≠ 'u' := by
        rintro rfl
        cases he
      rw [List.cons_append, List.cons_append, unescape?_escape _ done hne, he, Option.bind_some,
        ih (by simp only [List.length_cons]; omega)]
      simp
  | codePoint hu hhigh hlow _ ih =>
      obtain ⟨fuel, rfl⟩ := Nat.exists_eq_add_of_lt hfuel
      rw [List.cons_append, List.cons_append, List.append_assoc, unescape?_codePoint,
        codePoint?_single hu hhigh hlow, Option.bind_some,
        ih (by simp only [List.length_cons, List.length_append]; omega)]
      simp
  | pair hu hhigh hv hlow _ ih =>
      obtain ⟨fuel, rfl⟩ := Nat.exists_eq_add_of_lt hfuel
      simp only [List.cons_append, List.append_assoc]
      rw [unescape?_codePoint, codePoint?_pair hu hhigh hv hlow, Option.bind_some,
        ih (by simp only [List.length_cons, List.length_append]; omega)]
      simp

theorem exists_standsFor_of_unescape? {body out : List Char} (h : IsBody body) {fuel : Nat}
    {done : List Char} (hout : unescape? fuel done (body ++ ['"']) = some out) :
    ∃ cs, StandsFor body cs := by
  induction fuel generalizing body done with
  | zero => cases hout
  | succ fuel ih =>
      cases h with
      | nil => exact ⟨[], .nil⟩
      | @unescaped c rest hc hrest =>
          rw [List.cons_append, unescape?_unescaped fuel done hc] at hout
          obtain ⟨cs, hcs⟩ := ih hrest hout
          exact ⟨c :: cs, .unescaped hc hcs⟩
      | @escape c rest hc hrest =>
          rw [List.cons_append, List.cons_append,
            unescape?_escape fuel done (ne_u_of_isShortEscape hc), Option.bind_eq_some_iff] at hout
          obtain ⟨e, he, hout⟩ := hout
          obtain ⟨cs, hcs⟩ := ih hrest hout
          exact ⟨e :: cs, .escape he hcs⟩
      | @codePoint a b c d rest ha hb hc hd hrest =>
          obtain ⟨n, hu⟩ := exists_isCodeUnit ha hb hc hd
          simp only [List.cons_append] at hout
          rw [unescape?_codePoint, Option.bind_eq_some_iff] at hout
          obtain ⟨⟨x, back⟩, hread, hout⟩ := hout
          rcases codePoint?_eq_some hu hrest hread with ⟨hhigh, hlow, rfl⟩ |
            ⟨hhigh, v, low, rest, rfl, hv, hlow, hrest', rfl⟩
          · obtain ⟨cs, hcs⟩ := ih hrest hout
            exact ⟨_, .codePoint hu hhigh hlow hcs⟩
          · obtain ⟨cs, hcs⟩ := ih hrest' hout
            exact ⟨_, .pair hu hhigh hv hlow hcs⟩

theorem string?_eq_some {body cs : List Char} (h : StandsFor body cs) :
    string? ('"' :: (body ++ ['"'])) = some cs := by
  rw [string?, List.length_append, unescape?_eq_some h (by omega)]
  rfl

/-- A string is evaluated to the text that it stands for, and to none if it stands for none. -/
theorem string?_eq_some_iff {body cs : List Char} (h : IsBody body) :
    string? ('"' :: (body ++ ['"'])) = some cs ↔ StandsFor body cs := by
  constructor
  · intro hout
    obtain ⟨cs', hcs'⟩ := exists_standsFor_of_unescape? h hout
    cases (string?_eq_some hcs').symm.trans hout
    exact hcs'
  · exact string?_eq_some

end Peg.Json
