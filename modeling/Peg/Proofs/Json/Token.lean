import Peg.Json.Grammar
import Peg.Proofs.Regex.Token

/-!
# Tokens of JSON

Numbers and strings as the standard has them, and the patterns of the two: each matches such a token
as far as it goes. Main statements: `takes_number_iff` and `takes_string_iff`.
-/

namespace Peg.Json

/-! ## Numbers -/

/-- The digits of a number before its fraction: a zero alone, or digits that do not begin with one. -/
def IsInteger (text : List Char) : Prop :=
  text = ['0'] ∨ ∃ c ds, text = c :: ds ∧ c ≠ '0' ∧ IsDigits (c :: ds)

def IsUnsigned (text : List Char) : Prop :=
  ∃ whole scale, text = whole ++ scale ∧ IsInteger whole ∧ IsScale scale

/-- A text of an optional minus sign, an integer, an optional fraction and an optional exponent. -/
def IsNumber (text : List Char) : Prop :=
  IsUnsigned text ∨ ∃ rest, text = '-' :: rest ∧ IsUnsigned rest

section Cons

variable {c : Char} {rest : List Char}

theorem isUnsigned_cons_iff :
    IsUnsigned (c :: rest) ↔
      if c = '0' then IsScale rest else c.isDigit = true ∧ DigitsThen IsScale rest := by
  constructor
  · rintro ⟨whole, scale, heq, rfl | ⟨d, ds, rfl, hd, hds⟩, hscale⟩
    · obtain ⟨rfl, rfl⟩ := List.cons.inj heq
      rwa [if_pos rfl]
    · obtain ⟨rfl, rfl⟩ := List.cons.inj heq
      obtain ⟨hc, hrest⟩ := isDigits_cons_iff.1 hds
      rw [if_neg hd]
      exact ⟨hc, ds, scale, rfl, hrest, hscale⟩
  · split
    · next hc =>
        intro hscale
        exact ⟨['0'], rest, by rw [hc]; rfl, .inl rfl, hscale⟩
    · next hc =>
        rintro ⟨hdigit, ds, scale, rfl, hds, hscale⟩
        exact ⟨c :: ds, scale, rfl, .inr ⟨c, ds, rfl, hc, isDigits_cons_iff.2 ⟨hdigit, hds⟩⟩, hscale⟩

theorem not_isUnsigned_nil : ¬ IsUnsigned [] := by
  rintro ⟨whole, scale, heq, hwhole, -⟩
  obtain ⟨rfl, -⟩ := List.append_eq_nil_iff.1 heq.symm
  rcases hwhole with h | ⟨c, ds, h, -⟩ <;> cases h

theorem isDigit_of_isUnsigned (h : IsUnsigned (c :: rest)) : c.isDigit = true := by
  rw [isUnsigned_cons_iff] at h
  split at h
  · next hc =>
      subst hc
      rfl
  · exact h.1

theorem isNumber_cons_iff :
    IsNumber (c :: rest) ↔ if c = '-' then IsUnsigned rest else IsUnsigned (c :: rest) := by
  unfold IsNumber
  split
  · next hc =>
      subst hc
      constructor
      · rintro (h | ⟨_, heq, h⟩)
        · cases isDigit_of_isUnsigned h
        · rwa [(List.cons.inj heq).2]
      · exact fun h => .inr ⟨rest, rfl, h⟩
  · next hc =>
      constructor
      · rintro (h | ⟨_, heq, -⟩)
        · exact h
        · exact absurd (List.cons.inj heq).1 hc
      · exact .inl

theorem not_isNumber_nil : ¬ IsNumber [] := by
  rintro (h | ⟨_, h, -⟩)
  · exact not_isUnsigned_nil h
  · cases h

theorem begins_of_isNumber (h : IsNumber (c :: rest)) : c.isDigit = true ∨ c = '-' := by
  rcases h with h | ⟨_, h, -⟩
  · exact .inl (isDigit_of_isUnsigned h)
  · exact .inr (List.cons.inj h).1

end Cons

def numberAutomaton : Automaton where
  states :=
    #[.accept, .split 2 0, .read digitSet 1, .read signSet 2, .split 3 2, .read markSet 4, .split 5 0,
      .split 8 6, .read digitSet 7, .read pointSet 8, .split 9 6, .split 12 10, .read digitSet 11,
      .read { ranges := [(49, 57)] } 11, .read { ranges := [(48, 48)] } 10, .split 14 13,
      .read { ranges := [(45, 45)] } 15, .split 16 15, .look .textStart 17]
  start := 18
  unicodeWords := false

theorem automaton_number {p : Pattern}
    (h : Pattern.anchored? "-?(?:0|[1-9][0-9]*)(?:\\.[0-9]+)?(?:[eE][+-]?[0-9]+)?" = some p) :
    p.automaton = numberAutomaton :=
  Pattern.automaton_eq (by decide +kernel) h

theorem isAnchored_number : numberAutomaton.isAnchored = true := by decide +kernel

theorem numberStates : NumberStates numberAutomaton :=
  .of_states (by decide) (by decide +kernel)

theorem first_number : numberAutomaton.first = [18, 16, 14, 13] := by decide

theorem contains_single (n : Nat) (c : Char) :
    CharSet.contains { ranges := [(n, n)] } c = decide (c.toNat = n) := by
  rw [Bool.eq_iff_iff, decide_eq_true_iff]
  simp [CharSet.contains, Unicode.Ranges.contains]
  omega

theorem contains_nonzero (c : Char) :
    CharSet.contains { ranges := [(49, 57)] } c = (c.isDigit && c ≠ '0') := by
  rw [Bool.eq_iff_iff, Bool.and_eq_true, isDigit_iff]
  simp [CharSet.contains, Unicode.Ranges.contains, eq_iff_toNat]
  omega

/-- Before the first digit. -/
theorem step_unsigned_number (c : Char) :
    numberAutomaton.step [14, 13] c =
      if c = '0' then [9, 5, 0] else if c.isDigit then [12, 9, 5, 0] else [] := by
  have hzero : numberAutomaton.state 14 = .read { ranges := [(48, 48)] } 10 := rfl
  have hdigit : numberAutomaton.state 13 = .read { ranges := [(49, 57)] } 11 := rfl
  have hreach10 : numberAutomaton.reach (fun _ => false) [10] = [9, 5, 0] := by decide
  have hreach11 : numberAutomaton.reach (fun _ => false) [11] = [12, 9, 5, 0] := by decide
  simp only [Automaton.step, Automaton.follow_cons_read hzero, Automaton.follow_cons_read hdigit,
    Automaton.follow_nil, contains_single, contains_nonzero]
  by_cases h0 : c = '0'
  · subst h0
    simpa using hreach10
  · have hne : c.toNat ≠ 48 := fun h => h0 (eq_iff_toNat.2 h)
    by_cases hc : c.isDigit = true
    · simp [h0, hne, hc, hreach11]
    · simp [h0, hne, hc]

theorem step_first_number (c : Char) :
    numberAutomaton.step [18, 16, 14, 13] c =
      if c = '-' then [14, 13] else numberAutomaton.step [14, 13] c := by
  have hminus : numberAutomaton.state 16 = .read { ranges := [(45, 45)] } 15 := rfl
  have hlook : numberAutomaton.follow c [18, 16, 14, 13] =
    numberAutomaton.follow c [16, 14, 13] := rfl
  have hreach : numberAutomaton.reach (fun _ => false) [15] = [14, 13] := by decide
  rw [Automaton.step, hlook, Automaton.follow_cons_read hminus, contains_single]
  by_cases hc : c = '-'
  · subst hc
    have hnone : numberAutomaton.follow '-' [14, 13] = [] := rfl
    rw [hnone]
    simpa using hreach
  · have hne : c.toNat ≠ 45 := fun h => hc (eq_iff_toNat.2 h)
    simp [hc, hne, Automaton.step]

theorem takes_unsigned_iff {text : List Char} :
    numberAutomaton.Takes [14, 13] text ↔ IsUnsigned text := by
  cases text with
  | nil => exact iff_of_false (by decide) not_isUnsigned_nil
  | cons c rest =>
      rw [Automaton.takes_cons, step_unsigned_number, isUnsigned_cons_iff]
      split
      · exact numberStates.takes_integer_iff
      · split
        · next hc => rw [numberStates.takes_whole_iff, hc, eq_self, true_and]
        · next hc => exact iff_of_false (Automaton.not_takes_none _ _) fun h => hc h.1

theorem takes_number_iff {text : List Char} :
    numberAutomaton.Takes numberAutomaton.first text ↔ IsNumber text := by
  rw [first_number]
  cases text with
  | nil => exact iff_of_false (by decide) not_isNumber_nil
  | cons c rest =>
      rw [Automaton.takes_cons, step_first_number, isNumber_cons_iff]
      split
      · exact takes_unsigned_iff
      · rw [← Automaton.takes_cons, takes_unsigned_iff]

section End

variable {u v rest : List Char}

theorem not_takes_unsigned_append (hu : IsUnsigned u) (hv : EndsNumber v) (hne : v ≠ []) :
    ¬ numberAutomaton.Takes [14, 13] (u ++ v) := by
  cases u with
  | nil => exact absurd hu not_isUnsigned_nil
  | cons c u =>
      have hstates : numberAutomaton.step [14, 13] c ∈ NumberStates.lists := by
        rw [step_unsigned_number]
        split
        · simp [NumberStates.lists]
        · split <;> simp [NumberStates.lists]
      rw [List.cons_append, Automaton.takes_cons]
      exact numberStates.not_takes_append hstates (takes_unsigned_iff.2 hu) hv hne

theorem not_isNumber_append (hu : IsNumber u) (hv : EndsNumber v) (hne : v ≠ []) :
    ¬ IsNumber (u ++ v) := by
  have hunsigned {u : List Char} (hu : IsUnsigned u) : ¬ IsUnsigned (u ++ v) := by
    rw [← takes_unsigned_iff]
    exact not_takes_unsigned_append hu hv hne
  cases u with
  | nil => exact absurd hu not_isNumber_nil
  | cons c u =>
      rw [List.cons_append, isNumber_cons_iff]
      rw [isNumber_cons_iff] at hu
      split
      · next hc =>
          rw [if_pos hc] at hu
          exact hunsigned hu
      · next hc =>
          rw [if_neg hc] at hu
          exact hunsigned hu

theorem findEnd_number (hu : IsNumber u) (hrest : EndsNumber rest) :
    numberAutomaton.findEnd (u ++ rest) = some (byteLength u) := by
  apply Automaton.findEnd_append isAnchored_number (takes_number_iff.2 hu)
  rintro v w rfl hne
  rw [takes_number_iff]
  exact not_isNumber_append hu hrest.of_append hne

theorem isNumber_of_findEnd (h : numberAutomaton.findEnd (u ++ rest) = some (byteLength u)) :
    IsNumber u :=
  takes_number_iff.1 (Automaton.takes_of_findEnd isAnchored_number h)

theorem findEnd_number_eq_none {text : List Char}
    (h : ∀ c ∈ text.head?, ¬ (c.isDigit = true ∨ c = '-')) : numberAutomaton.findEnd text = none := by
  apply Automaton.findEnd_eq_none isAnchored_number
  rintro u v rfl htakes
  cases u with
  | nil => exact not_isNumber_nil (takes_number_iff.1 htakes)
  | cons c u => exact h c rfl (begins_of_isNumber (takes_number_iff.1 htakes))

end End

/-! ## Strings -/

/-- A character that may stand for itself in a string. -/
def IsUnescaped (c : Char) : Prop := ' ' ≤ c ∧ c ≠ '"' ∧ c ≠ '\\'

/-- A character that makes an escape by itself behind a backslash. -/
def IsShortEscape (c : Char) : Prop := c ∈ ['"', '\\', '/', 'b', 'f', 'n', 'r', 't']

def IsHexDigit (c : Char) : Prop :=
  c.isDigit = true ∨ ('a' ≤ c ∧ c ≤ 'f') ∨ ('A' ≤ c ∧ c ≤ 'F')

instance (c : Char) : Decidable (IsUnescaped c) := inferInstanceAs (Decidable (_ ∧ _))

instance (c : Char) : Decidable (IsShortEscape c) := inferInstanceAs (Decidable (_ ∈ _))

instance (c : Char) : Decidable (IsHexDigit c) := inferInstanceAs (Decidable (_ ∨ _))

/-- What may stand between the quotes of a string. -/
inductive IsBody : List Char → Prop
  | nil : IsBody []
  | unescaped {c : Char} {rest : List Char} : IsUnescaped c → IsBody rest → IsBody (c :: rest)
  | escape {c : Char} {rest : List Char} : IsShortEscape c → IsBody rest → IsBody ('\\' :: c :: rest)
  | codePoint {a b c d : Char} {rest : List Char} : IsHexDigit a → IsHexDigit b → IsHexDigit c →
      IsHexDigit d → IsBody rest → IsBody ('\\' :: 'u' :: a :: b :: c :: d :: rest)

def IsString (text : List Char) : Prop := ∃ body, text = '"' :: (body ++ ['"']) ∧ IsBody body

def stringAutomaton : Automaton where
  states :=
    #[.accept, .read { ranges := [(34, 34)] } 0, .split 12 1,
      .read { ranges := [(48, 57), (65, 70), (97, 102)] } 2,
      .read { ranges := [(48, 57), (65, 70), (97, 102)] } 3,
      .read { ranges := [(48, 57), (65, 70), (97, 102)] } 4,
      .read { ranges := [(48, 57), (65, 70), (97, 102)] } 5, .read { ranges := [(117, 117)] } 6,
      .read { ranges := [(34, 34), (47, 47), (92, 92), (98, 98), (102, 102), (110, 110), (114, 114),
        (116, 116)] } 2,
      .split 8 7, .read { ranges := [(92, 92)] } 9,
      .read { ranges := [(32, 33), (35, 91), (93, 1114111)] } 2, .split 11 10,
      .read { ranges := [(34, 34)] } 2, .look .textStart 13]
  start := 14
  unicodeWords := false

theorem automaton_string {p : Pattern}
    (h : Pattern.anchored?
      "\"(?:[^\"\\\\\\x00-\\x1F]|\\\\(?:[\"\\\\/bfnrt]|u[0-9a-fA-F]\x7b4\x7d))*\"" = some p) :
    p.automaton = stringAutomaton :=
  Pattern.automaton_eq (by decide +kernel) h

theorem isAnchored_string : stringAutomaton.isAnchored = true := by decide +kernel

theorem contains_unescaped (c : Char) :
    CharSet.contains { ranges := [(32, 33), (35, 91), (93, 1114111)] } c = decide (IsUnescaped c) := by
  have hlast : c.toNat ≤ 1114111 := by
    have hvalid := c.valid
    simp only [UInt32.isValidChar, Nat.isValidChar] at hvalid
    simp only [Char.toNat]
    omega
  rw [Bool.eq_iff_iff, decide_eq_true_iff, IsUnescaped]
  simp [CharSet.contains, Unicode.Ranges.contains, eq_iff_toNat, Char.le_def, UInt32.le_iff_toNat_le]
  omega

theorem contains_shortEscape (c : Char) :
    CharSet.contains { ranges := [(34, 34), (47, 47), (92, 92), (98, 98), (102, 102), (110, 110),
      (114, 114), (116, 116)] } c = decide (IsShortEscape c) := by
  rw [Bool.eq_iff_iff, decide_eq_true_iff, IsShortEscape]
  simp [CharSet.contains, Unicode.Ranges.contains, eq_iff_toNat]
  omega

theorem contains_hexDigit (c : Char) :
    CharSet.contains { ranges := [(48, 57), (65, 70), (97, 102)] } c = decide (IsHexDigit c) := by
  rw [Bool.eq_iff_iff, decide_eq_true_iff, IsHexDigit, isDigit_iff]
  simp [CharSet.contains, Unicode.Ranges.contains, Char.le_def, UInt32.le_iff_toNat_le]
  omega

theorem step_body_string (c : Char) :
    stringAutomaton.step [11, 10, 1] c =
      if IsUnescaped c then [11, 10, 1]
      else if c = '\\' then [8, 7]
      else if c = '"' then [0]
      else [] := by
  have hplain : stringAutomaton.state 11 =
    .read { ranges := [(32, 33), (35, 91), (93, 1114111)] } 2 := rfl
  have hbackslash : stringAutomaton.state 10 = .read { ranges := [(92, 92)] } 9 := rfl
  have hquote : stringAutomaton.state 1 = .read { ranges := [(34, 34)] } 0 := rfl
  have hreach2 : stringAutomaton.reach (fun _ => false) [2] = [11, 10, 1] := by decide
  have hreach9 : stringAutomaton.reach (fun _ => false) [9] = [8, 7] := by decide
  have hreach0 : stringAutomaton.reach (fun _ => false) [0] = [0] := by decide
  simp only [Automaton.step, Automaton.follow_cons_read hplain,
    Automaton.follow_cons_read hbackslash, Automaton.follow_cons_read hquote, Automaton.follow_nil,
    contains_single, contains_unescaped]
  by_cases hc : IsUnescaped c
  · have hne : c.toNat ≠ 92 ∧ c.toNat ≠ 34 :=
      ⟨fun h => hc.2.2 (eq_iff_toNat.2 h), fun h => hc.2.1 (eq_iff_toNat.2 h)⟩
    simp [hc, hne, hreach2]
  · by_cases h92 : c = '\\'
    · subst h92
      simpa [hc] using hreach9
    · have hne : c.toNat ≠ 92 := fun h => h92 (eq_iff_toNat.2 h)
      by_cases h34 : c = '"'
      · subst h34
        simpa [hc] using hreach0
      · have hne' : c.toNat ≠ 34 := fun h => h34 (eq_iff_toNat.2 h)
        simp [hc, h92, h34, hne, hne']

/-- Behind a backslash. -/
theorem step_escape_string (c : Char) :
    stringAutomaton.step [8, 7] c =
      if IsShortEscape c then [11, 10, 1] else if c = 'u' then [6] else [] := by
  have hshort : stringAutomaton.state 8 = .read { ranges := [(34, 34), (47, 47), (92, 92), (98, 98),
    (102, 102), (110, 110), (114, 114), (116, 116)] } 2 := rfl
  have hcode : stringAutomaton.state 7 = .read { ranges := [(117, 117)] } 6 := rfl
  have hreach2 : stringAutomaton.reach (fun _ => false) [2] = [11, 10, 1] := by decide
  have hreach6 : stringAutomaton.reach (fun _ => false) [6] = [6] := by decide
  simp only [Automaton.step, Automaton.follow_cons_read hshort, Automaton.follow_cons_read hcode,
    Automaton.follow_nil, contains_single, contains_shortEscape]
  by_cases hu : c = 'u'
  · subst hu
    have hno : ¬ IsShortEscape 'u' := by decide
    simpa [hno] using hreach6
  · have hne : c.toNat ≠ 117 := fun h => hu (eq_iff_toNat.2 h)
    by_cases hc : IsShortEscape c <;> simp [hu, hne, hc, hreach2]

/-- Before a hexadecimal digit. -/
theorem step_hex_string {n next : Nat} {states : List Nat}
    (hstate : stringAutomaton.state n =
      .read { ranges := [(48, 57), (65, 70), (97, 102)] } next)
    (hreach : stringAutomaton.reach (fun _ => false) [next] = states) (c : Char) :
    stringAutomaton.step [n] c = if IsHexDigit c then states else [] := by
  simp only [Automaton.step, Automaton.follow_cons_read hstate, Automaton.follow_nil,
    contains_hexDigit]
  by_cases hc : IsHexDigit c <;> simp [hc, hreach]

/-- The states behind the `u` of an escape. -/
theorem step_codePoint_string :
    (∀ c, stringAutomaton.step [6] c = if IsHexDigit c then [5] else []) ∧
    (∀ c, stringAutomaton.step [5] c = if IsHexDigit c then [4] else []) ∧
    (∀ c, stringAutomaton.step [4] c = if IsHexDigit c then [3] else []) ∧
    ∀ c, stringAutomaton.step [3] c = if IsHexDigit c then [11, 10, 1] else [] :=
  ⟨step_hex_string rfl (by decide), step_hex_string rfl (by decide +kernel),
    step_hex_string rfl (by decide), step_hex_string rfl (by decide +kernel)⟩

theorem takes_hex_string {n : Nat} {states : List Nat} {text : List Char}
    (haccepts : stringAutomaton.accepts [n] = false)
    (hstep : ∀ c, stringAutomaton.step [n] c = if IsHexDigit c then states else [])
    (h : stringAutomaton.Takes [n] text) :
    ∃ c rest, text = c :: rest ∧ IsHexDigit c ∧ stringAutomaton.Takes states rest := by
  cases text with
  | nil =>
      rw [Automaton.takes_nil, haccepts] at h
      cases h
  | cons c rest =>
      rw [Automaton.takes_cons, hstep] at h
      split at h
      · next hc => exact ⟨c, rest, rfl, hc, h⟩
      · exact absurd h (Automaton.not_takes_none _ _)

theorem takes_codePoint_string {text : List Char} (h : stringAutomaton.Takes [6] text) :
    ∃ a b c d rest, text = a :: b :: c :: d :: rest ∧ IsHexDigit a ∧ IsHexDigit b ∧ IsHexDigit c ∧
      IsHexDigit d ∧ stringAutomaton.Takes [11, 10, 1] rest := by
  obtain ⟨h6, h5, h4, h3⟩ := step_codePoint_string
  obtain ⟨a, _, rfl, ha, h⟩ := takes_hex_string (by decide) h6 h
  obtain ⟨b, _, rfl, hb, h⟩ := takes_hex_string (by decide) h5 h
  obtain ⟨c, _, rfl, hc, h⟩ := takes_hex_string (by decide) h4 h
  obtain ⟨d, rest, rfl, hd, h⟩ := takes_hex_string (by decide) h3 h
  exact ⟨a, b, c, d, rest, rfl, ha, hb, hc, hd, h⟩

theorem takes_closed_string {text : List Char} : stringAutomaton.Takes [0] text ↔ text = [] := by
  cases text with
  | nil => exact iff_of_true (by decide) rfl
  | cons c rest =>
      have hstep : stringAutomaton.step [0] c = [] := Automaton.reach_nil _
      rw [Automaton.takes_cons, hstep]
      exact iff_of_false (Automaton.not_takes_none _ _) (List.cons_ne_nil _ _)

theorem after_body_string {body : List Char} (h : IsBody body) :
    stringAutomaton.after [11, 10, 1] body = [11, 10, 1] := by
  obtain ⟨h6, h5, h4, h3⟩ := step_codePoint_string
  have hbackslash : stringAutomaton.step [11, 10, 1] '\\' = [8, 7] := by decide
  have hcode : stringAutomaton.step [8, 7] 'u' = [6] := by decide
  induction h with
  | nil => rfl
  | unescaped hc _ ih =>
      rw [Automaton.after, List.foldl_cons, step_body_string, if_pos hc]
      exact ih
  | escape hc _ ih =>
      rw [Automaton.after, List.foldl_cons, List.foldl_cons, hbackslash, step_escape_string,
        if_pos hc]
      exact ih
  | codePoint ha hb hc hd _ ih =>
      simp only [Automaton.after, List.foldl_cons, hbackslash, hcode, h6, h5, h4, h3, if_pos ha,
        if_pos hb, if_pos hc, if_pos hd]
      exact ih

theorem takes_body_string {text : List Char} (h : stringAutomaton.Takes [11, 10, 1] text) :
    ∃ body, text = body ++ ['"'] ∧ IsBody body := by
  cases text with
  | nil => exact absurd h (by decide)
  | cons c rest =>
      rw [Automaton.takes_cons, step_body_string] at h
      split at h
      · next hc =>
          obtain ⟨body, rfl, hbody⟩ := takes_body_string h
          exact ⟨c :: body, rfl, .unescaped hc hbody⟩
      · split at h
        · next hc =>
            subst hc
            cases rest with
            | nil => exact absurd h (by decide)
            | cons e rest =>
                rw [Automaton.takes_cons, step_escape_string] at h
                split at h
                · next he =>
                    obtain ⟨body, rfl, hbody⟩ := takes_body_string h
                    exact ⟨'\\' :: e :: body, rfl, .escape he hbody⟩
                · split at h
                  · next he =>
                      subst he
                      obtain ⟨a, b, c, d, rest, rfl, ha, hb, hc, hd, h⟩ := takes_codePoint_string h
                      obtain ⟨body, rfl, hbody⟩ := takes_body_string h
                      exact ⟨'\\' :: 'u' :: a :: b :: c :: d :: body, rfl,
                        .codePoint ha hb hc hd hbody⟩
                  · exact absurd h (Automaton.not_takes_none _ _)
        · split at h
          · next hc =>
              subst hc
              rw [takes_closed_string.1 h]
              exact ⟨[], rfl, .nil⟩
          · exact absurd h (Automaton.not_takes_none _ _)
termination_by text.length

theorem first_string : stringAutomaton.first = [14, 13] := by decide

theorem step_first_string (c : Char) :
    stringAutomaton.step [14, 13] c = if c = '"' then [11, 10, 1] else [] := by
  have hquote : stringAutomaton.state 13 = .read { ranges := [(34, 34)] } 2 := rfl
  have hlook : stringAutomaton.follow c [14, 13] = stringAutomaton.follow c [13] := rfl
  have hreach2 : stringAutomaton.reach (fun _ => false) [2] = [11, 10, 1] := by decide
  rw [Automaton.step, hlook, Automaton.follow_cons_read hquote, Automaton.follow_nil, contains_single]
  by_cases hc : c = '"'
  · subst hc
    simpa using hreach2
  · have hne : c.toNat ≠ 34 := fun h => hc (eq_iff_toNat.2 h)
    simp [hc, hne]

theorem takes_string_append {u v : List Char} (hu : IsString u) :
    stringAutomaton.Takes stringAutomaton.first (u ++ v) ↔ v = [] := by
  obtain ⟨body, rfl, hbody⟩ := hu
  have hclose : stringAutomaton.step [11, 10, 1] '"' = [0] := by decide
  rw [first_string, List.cons_append, Automaton.takes_cons, step_first_string, if_pos rfl,
    List.append_assoc, Automaton.takes_append, after_body_string hbody, List.cons_append,
    Automaton.takes_cons, hclose, List.nil_append, takes_closed_string]

theorem takes_string_iff {text : List Char} :
    stringAutomaton.Takes stringAutomaton.first text ↔ IsString text := by
  constructor
  · intro h
    rw [first_string] at h
    cases text with
    | nil => exact absurd h (by decide)
    | cons c rest =>
        rw [Automaton.takes_cons, step_first_string] at h
        split at h
        · next hc =>
            subst hc
            obtain ⟨body, rfl, hbody⟩ := takes_body_string h
            exact ⟨body, rfl, hbody⟩
        · exact absurd h (Automaton.not_takes_none _ _)
  · intro h
    rw [← List.append_nil text, takes_string_append h]

theorem findEnd_string {u : List Char} (hu : IsString u) (rest : List Char) :
    stringAutomaton.findEnd (u ++ rest) = some (byteLength u) := by
  apply Automaton.findEnd_append isAnchored_string (takes_string_iff.2 hu)
  intro v w _ hne
  rwa [takes_string_append hu]

theorem isString_of_findEnd {u rest : List Char}
    (h : stringAutomaton.findEnd (u ++ rest) = some (byteLength u)) : IsString u :=
  takes_string_iff.1 (Automaton.takes_of_findEnd isAnchored_string h)

theorem findEnd_string_eq_none {text : List Char} (h : ∀ c ∈ text.head?, c ≠ '"') :
    stringAutomaton.findEnd text = none := by
  apply Automaton.findEnd_eq_none isAnchored_string
  rintro u v rfl htakes
  obtain ⟨body, rfl, -⟩ := takes_string_iff.1 htakes
  exact h '"' rfl rfl

end Peg.Json
