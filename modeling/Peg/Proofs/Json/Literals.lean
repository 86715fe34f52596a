import Peg.Proofs.Arithmetic.Numeral
import Peg.Proofs.Json.Escapes

/-!
# What is read from strings and numbers

The text of a string and the value of a number are read by a library, for which `string?` and `number?`
stand. The theory of documents uses of it what `ReadsLiterals` states and nothing else. Main statement:
`readsLiterals`.
-/

namespace Peg.Json

/-- The text is digits that write an integer, behind a minus sign if it is negative. -/
def Writes (u : List Char) (n : Int) : Prop :=
  ∃ digits, (∀ c ∈ digits, c.isDigit = true) ∧
    (u = digits ∧ n = Arithmetic.digitsValue digits ∨
      u = '-' :: digits ∧ n = -Arithmetic.digitsValue digits)

/-- What a reader of strings and numbers is documented to do. -/
structure ReadsLiterals (readString : List Char → Option (List Char))
    (readNumber : List Char → Option Value) : Prop where
  /-- A string is read as the text that it stands for. It is refused only if it stands for none, which
  takes a surrogate without the other half of its pair. -/
  string_iff : ∀ {body cs : List Char}, IsBody body →
    (readString ('"' :: (body ++ ['"'])) = some cs ↔ StandsFor body cs)
  /-- What is read as an integer is the integer that is written. Every other number is read as a
  floating-point number or refused. -/
  number : ∀ {u : List Char} {v : Value}, readNumber u = some v →
    (∃ n, v = .int n ∧ Writes u n) ∨ ∃ x, v = .float x
  /-- Digits are read as an integer as long as 64 bits hold it. -/
  digits : ∀ {n : Nat}, n ≤ maxSignificand → readNumber (Nat.toDigits 10 n) = some (.int n)

/-! ## Strings -/

theorem isShortEscape_of_shortEscape? {c e : Char} (h : shortEscape? c = some e) :
    IsShortEscape c := by
  unfold shortEscape? at h
  split at h <;> first | decide | cases h

theorem StandsFor.isBody {body cs : List Char} (h : StandsFor body cs) : IsBody body := by
  induction h with
  | nil => exact .nil
  | unescaped hc _ ih => exact .unescaped hc ih
  | @escape c e rest cs he _ ih => exact .escape (isShortEscape_of_shortEscape? he) ih
  | codePoint hu _ _ _ ih =>
      obtain ⟨a, b, c, d, rfl, ha, hb, hc, hd, -⟩ := hu
      exact .codePoint ha hb hc hd ih
  | pair hu _ hv _ _ ih =>
      obtain ⟨a, b, c, d, rfl, ha, hb, hc, hd, -⟩ := hu
      obtain ⟨a', b', c', d', rfl, ha', hb', hc', hd', -⟩ := hv
      exact .codePoint ha hb hc hd (.codePoint ha' hb' hc' hd' ih)

theorem ReadsLiterals.string_eq {readString : List Char → Option (List Char)}
    {readNumber : List Char → Option Value} (h : ReadsLiterals readString readNumber)
    {body cs : List Char} (hcs : StandsFor body cs) :
    readString ('"' :: (body ++ ['"'])) = some cs :=
  (h.string_iff hcs.isBody).2 hcs

/-! ## Numbers -/

theorem wholeDigits_eq {s n : Nat} {ds : List Char} (h : wholeDigits s ds = (n, 0)) :
    n = ds.foldl (fun n c => n * 10 + (c.toNat - '0'.toNat)) s := by
  fun_induction wholeDigits s ds with
  | case1 s => exact (Prod.mk.inj h).1.symm
  | case2 s c cs next hnext => cases (Prod.mk.inj h).2
  | case3 s c cs next hnext ih => exact ih h

theorem digitsValue_of_wholeDigits {digits : List Char} {n : Nat}
    (hrest : digits.dropWhile Char.isDigit = [])
    (h : wholeDigits 0 (digits.takeWhile Char.isDigit) = (n, 0)) :
    (∀ c ∈ digits, c.isDigit = true) ∧ n = Arithmetic.digitsValue digits := by
  have hall := List.dropWhile_eq_nil_iff.1 hrest
  rw [List.takeWhile_eq_self_iff.2 hall] at h
  exact ⟨hall, wholeDigits_eq h⟩

theorem number?_eq_some {u : List Char} {v : Value} (h : number? u = some v) :
    (∃ n, v = .int n ∧ Writes u n) ∨ ∃ x, v = .float x := by
  unfold number? at h
  split at h
  next negative digits hread =>
  split at h
  next significand dropped hwhole =>
  have hsign : negative = true ∧ u = '-' :: digits ∨ negative = false ∧ u = digits := by
    split at hread
    · obtain ⟨rfl, rfl⟩ := Prod.mk.inj hread
      exact .inl ⟨rfl, rfl⟩
    · obtain ⟨rfl, rfl⟩ := Prod.mk.inj hread
      exact .inr ⟨rfl, rfl⟩
  have hscaled {x? : Option Float}
      (h : x?.map (fun x => Value.float (if negative then -x else x)) = some v) :
      ∃ x, v = .float x := by
    obtain ⟨x, -, rfl⟩ := Option.map_eq_some_iff.1 h
    exact ⟨_, rfl⟩
  dsimp only at h
  split at h
  · next hinteger =>
      rw [Bool.and_eq_true, List.isEmpty_iff, decide_eq_true_eq] at hinteger
      obtain ⟨hrest, rfl⟩ := hinteger
      obtain ⟨hall, rfl⟩ := digitsValue_of_wholeDigits hrest hwhole
      split at h
      · next hpositive =>
          obtain ⟨rfl, -⟩ | ⟨-, hu⟩ := hsign
          · exact absurd hpositive (by decide)
          · exact .inl ⟨_, (Option.some.inj h).symm, digits, hall, .inl ⟨hu, rfl⟩⟩
      · next hnegative =>
          split at h
          · obtain ⟨-, hu⟩ | ⟨rfl, -⟩ := hsign
            · exact .inl ⟨_, (Option.some.inj h).symm, digits, hall, .inr ⟨hu, rfl⟩⟩
            · exact absurd rfl hnegative
          · exact .inr ⟨_, (Option.some.inj h).symm⟩
  · split at h
    · exact .inr (hscaled h)
    · exact .inr (hscaled h)

theorem le_ofDigitChars (ds : List Char) (s : Nat) : s ≤ Nat.ofDigitChars 10 ds s := by
  rw [Nat.ofDigitChars_eq_ofDigitChars_zero]
  exact (Nat.le_mul_of_pos_left s (Nat.pow_pos (by decide))).trans (Nat.le_add_right _ _)

theorem wholeDigits_of_le {ds : List Char} {s : Nat}
    (h : Nat.ofDigitChars 10 ds s ≤ maxSignificand) :
    wholeDigits s ds = (Nat.ofDigitChars 10 ds s, 0) := by
  induction ds generalizing s with
  | nil => rfl
  | cons c cs ih =>
      have hnext : 10 * s + (c.toNat - '0'.toNat) ≤ maxSignificand :=
        (le_ofDigitChars cs _).trans h
      rw [wholeDigits, Nat.mul_comm s 10, if_neg (Nat.not_lt.2 hnext), ih h]
      rfl

theorem number?_toDigits {n : Nat} (h : n ≤ maxSignificand) :
    number? (Nat.toDigits 10 n) = some (.int n) := by
  have hall : ∀ c ∈ Nat.toDigits 10 n, c.isDigit = true := fun c =>
    Nat.isDigit_of_mem_toDigits (by decide) (by decide)
  have hvalue : Nat.ofDigitChars 10 (Nat.toDigits 10 n) 0 = n := Nat.ofDigitChars_ten_toDigits
  have hwhole : wholeDigits 0 (Nat.toDigits 10 n) = (_, 0) := wholeDigits_of_le (by rwa [hvalue])
  have hunsigned : ∀ digits, Nat.toDigits 10 n ≠ '-' :: digits := fun digits hdigits =>
    absurd (hall '-' (hdigits ▸ List.mem_cons_self)) (by decide)
  rw [hvalue] at hwhole
  unfold number?
  split
  next negative digits hread =>
  split at hread
  · next hminus => exact absurd hminus (hunsigned _)
  · obtain ⟨rfl, rfl⟩ := Prod.mk.inj hread
    rw [List.takeWhile_eq_self_iff.2 hall, List.dropWhile_eq_nil_iff.2 hall, hwhole]
    rfl

theorem readsLiterals : ReadsLiterals string? number? where
  string_iff := string?_eq_some_iff
  number := number?_eq_some
  digits := number?_toDigits

end Peg.Json
