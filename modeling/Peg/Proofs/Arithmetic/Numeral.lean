import Peg.Arithmetic.Grammar
import Peg.Proofs.Regex.Token

/-!
# Number literals

The pattern of number literals matches digits with an optional fraction and exponent, as far as they
go. A literal is an integer if it can be read as one of 64 bits, and a floating-point number otherwise.
-/

namespace Peg.Arithmetic

/-- A text of digits with an optional fraction and an optional exponent. -/
def IsNumeral (text : List Char) : Prop :=
  ∃ digits scale, text = digits ++ scale ∧ IsDigits digits ∧ IsScale scale

theorem isNumeral_cons_iff {c : Char} {rest : List Char} :
    IsNumeral (c :: rest) ↔ c.isDigit = true ∧ DigitsThen IsScale rest :=
  exists_digits_cons_iff

theorem not_isNumeral_nil : ¬ IsNumeral [] := by
  rintro ⟨digits, scale, h, hdigits, -⟩
  exact hdigits.1 (List.append_eq_nil_iff.1 h.symm).1

/-! ## The pattern -/

def numberAutomaton : Automaton where
  states :=
    #[.accept, .split 2 0, .read digitSet 1, .read signSet 2, .split 3 2, .read markSet 4, .split 5 0,
      .split 8 6, .read digitSet 7, .read pointSet 8, .split 9 6, .split 12 10, .read digitSet 11,
      .look .textStart 12]
  start := 13
  unicodeWords := false

theorem automaton_number {p : Pattern}
    (h : Pattern.anchored? "[0-9]+(?:\\.[0-9]+)?(?:[eE][+-]?[0-9]+)?" = some p) :
    p.automaton = numberAutomaton :=
  Pattern.automaton_eq (by decide +kernel) h

theorem isAnchored_number : numberAutomaton.isAnchored = true := by decide +kernel

theorem numberStates : NumberStates numberAutomaton :=
  .of_states (by decide) (by decide +kernel)

theorem first_number : numberAutomaton.first = [13, 12] := by decide

theorem step_first_number (c : Char) :
    numberAutomaton.step [13, 12] c = if c.isDigit then [12, 9, 5, 0] else [] := by
  have hfollow : numberAutomaton.follow c [13, 12] = if digitSet.contains c then [11] else [] := rfl
  rw [Automaton.step, hfollow, contains_digitSet]
  split <;> decide +kernel

theorem takes_number_iff {text : List Char} :
    numberAutomaton.Takes numberAutomaton.first text ↔ IsNumeral text := by
  rw [first_number]
  cases text with
  | nil => exact iff_of_false (by decide) not_isNumeral_nil
  | cons c rest =>
      rw [Automaton.takes_cons, step_first_number, isNumeral_cons_iff]
      split
      · next hc => rw [numberStates.takes_whole_iff, hc, eq_self, true_and]
      · next hc => exact iff_of_false (Automaton.not_takes_none _ _) fun h => hc h.1

theorem findEnd_number {u rest : List Char} (hu : IsNumeral u) (hrest : EndsNumber rest) :
    numberAutomaton.findEnd (u ++ rest) = some (byteLength u) := by
  apply Automaton.findEnd_append isAnchored_number (takes_number_iff.2 hu)
  rintro v w rfl hv
  cases u with
  | nil => exact absurd hu not_isNumeral_nil
  | cons c u =>
      have hc := (isNumeral_cons_iff.1 hu).1
      have hu' := (takes_number_iff.2 hu)
      rw [first_number, Automaton.takes_cons, step_first_number, if_pos hc] at hu'
      rw [first_number, List.cons_append, Automaton.takes_cons, step_first_number, if_pos hc]
      exact numberStates.not_takes_append (by simp [NumberStates.lists]) hu' hrest.of_append hv

theorem isNumeral_of_findEnd {u rest : List Char}
    (h : numberAutomaton.findEnd (u ++ rest) = some (byteLength u)) : IsNumeral u :=
  takes_number_iff.1 (Automaton.takes_of_findEnd isAnchored_number h)

theorem findEnd_number_eq_none {text : List Char} (h : ∀ c ∈ text.head?, c.isDigit = false) :
    numberAutomaton.findEnd text = none := by
  apply Automaton.findEnd_eq_none isAnchored_number
  rintro u v rfl htakes
  cases u with
  | nil => exact not_isNumeral_nil (takes_number_iff.1 htakes)
  | cons c u =>
      have hc := (isNumeral_cons_iff.1 (takes_number_iff.1 htakes)).1
      rw [h c rfl] at hc
      cases hc

theorem numeral_unique {u u' rest rest' : List Char} (hu : IsNumeral u) (hu' : IsNumeral u')
    (hrest : EndsNumber rest) (hrest' : EndsNumber rest') (h : u ++ rest = u' ++ rest') :
    u = u' ∧ rest = rest' := by
  have hfound := findEnd_number hu hrest
  rw [h, findEnd_number hu' hrest', Option.some.injEq] at hfound
  have hsame : u = u' := by
    rw [← takeBytes_byteLength_append u rest, h, ← hfound, takeBytes_byteLength_append]
  subst hsame
  exact ⟨rfl, List.append_cancel_left h⟩

/-! ## The value -/

def digitsValue (digits : List Char) : Nat :=
  digits.foldl (fun n c => n * 10 + (c.toNat - '0'.toNat)) 0

theorem readInt64?_of_isDigit {c : Char} {rest : List Char} (hc : c.isDigit = true) :
    Member.readInt64? (String.ofList (c :: rest)) =
      if rest.all Char.isDigit ∧ fitsInt64 (digitsValue (c :: rest)) then
        some (digitsValue (c :: rest) : Int)
      else none := by
  have hplus : c ≠ '+' := fun h => not_sign_of_isDigit hc (.inl h)
  have hminus : c ≠ '-' := fun h => not_sign_of_isDigit hc (.inr h)
  unfold Member.readInt64?
  rw [String.toList_ofList]
  split
  · next h => exact absurd (List.cons.inj h).1 hminus
  · next h => exact absurd (List.cons.inj h).1 hplus
  · by_cases hrest : rest.all Char.isDigit = true
    · simp only [List.isEmpty_cons, List.all_cons, hc, hrest, Bool.and_self, Bool.not_true,
        Bool.or_self, Bool.false_eq_true, if_false, Option.bind_some, true_and]
      rfl
    · simp [hrest, hc]

theorem takeWhile_digits {digits scale : List Char} (hdigits : ∀ c ∈ digits, c.isDigit = true)
    (hscale : IsScale scale) :
    (digits ++ scale).takeWhile Char.isDigit = digits ∧
      (digits ++ scale).dropWhile Char.isDigit = scale := by
  have hstops : scale.takeWhile Char.isDigit = [] ∧ scale.dropWhile Char.isDigit = scale := by
    cases scale with
    | nil => exact ⟨rfl, rfl⟩
    | cons c rest => simp [not_isDigit_of_isScale hscale]
  rw [List.takeWhile_append_of_pos hdigits, List.dropWhile_append_of_pos hdigits, hstops.1,
    hstops.2, List.append_nil]
  exact ⟨rfl, rfl⟩

theorem literal_spec {text : List Char} (h : IsNumeral text) :
    (∀ n, Member.readInt64? (String.ofList text) = some n → literal text = .int n) ∧
      (Member.readInt64? (String.ofList text) = none → ∃ x, literal text = .float x) := by
  obtain ⟨digits, scale, rfl, ⟨hne, hdigits⟩, hscale⟩ := h
  obtain ⟨hwhole, hrest⟩ := takeWhile_digits hdigits hscale
  cases digits with
  | nil => exact absurd rfl hne
  | cons c digits =>
      obtain ⟨hc, hds⟩ := List.forall_mem_cons.1 hdigits
      rw [List.cons_append, readInt64?_of_isDigit hc, ← List.cons_append]
      simp only [literal, hwhole, hrest]
      cases scale with
      | nil =>
          have hall : digits.all Char.isDigit = true := List.all_eq_true.2 hds
          simp only [List.append_nil, hall, List.isEmpty_nil, Bool.true_and, true_and]
          by_cases hfits : fitsInt64 (digitsValue (c :: digits)) = true
          · refine ⟨fun n hn => ?_, fun hnone => ?_⟩
            · rw [if_pos hfits] at hn
              cases hn
              exact if_pos hfits
            · rw [if_pos hfits] at hnone
              cases hnone
          · refine ⟨fun n hn => ?_, fun _ => ⟨_, if_neg hfits⟩⟩
            rw [if_neg hfits] at hn
            cases hn
      | cons d scale =>
          have hd := not_isDigit_of_isScale hscale
          simp [hd]

end Peg.Arithmetic
