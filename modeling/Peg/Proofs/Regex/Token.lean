import Mathlib.Data.List.TakeWhile
import Peg.Proofs.Regex.Longest

/-!
# Blanks and numbers

The texts that the patterns of optional white space and of numbers take: blanks, and digits with an
optional fraction and an optional exponent. The automata of two patterns for numbers have the states
behind the first digit in common, which `NumberStates` describes. Main statements: `takes_space_iff`
and `NumberStates.takes_whole_iff`.
-/

namespace Peg

/-! ## Sets of characters -/

theorem eq_iff_toNat {c d : Char} : c = d ↔ c.toNat = d.toNat := Char.toNat_inj.symm

theorem isDigit_iff {c : Char} : c.isDigit = true ↔ 48 ≤ c.toNat ∧ c.toNat ≤ 57 := by
  simp [Char.isDigit, UInt32.le_iff_toNat_le]

/-! ## Blanks -/

def isBlank (c : Char) : Bool := c = ' ' || c = '\t' || c = '\r' || c = '\n'

def IsSpace (text : List Char) : Prop := ∀ c ∈ text, isBlank c = true

def spaceAutomaton : Automaton where
  states :=
    #[.accept, .split 2 0, .read { ranges := [(9, 10), (13, 13), (32, 32)] } 1, .look .textStart 1]
  start := 3
  unicodeWords := false

theorem Pattern.automaton_eq {source : String} {p : Pattern} {a : Automaton}
    (hparts : (Pattern.anchored? source).map (fun p => (p.automaton.states, p.automaton.start,
      p.automaton.unicodeWords)) = some (a.states, a.start, a.unicodeWords))
    (h : Pattern.anchored? source = some p) : p.automaton = a := by
  rw [h, Option.map_some, Option.some.injEq] at hparts
  generalize p.automaton = found at hparts
  cases found
  cases a
  cases hparts
  rfl

theorem automaton_space {p : Pattern} (h : Pattern.anchored? "[ \\t\\r\\n]*" = some p) :
    p.automaton = spaceAutomaton :=
  Pattern.automaton_eq (by decide +kernel) h

theorem isAnchored_space : spaceAutomaton.isAnchored = true := by decide +kernel

theorem contains_blank (c : Char) :
    CharSet.contains { ranges := [(9, 10), (13, 13), (32, 32)] } c = isBlank c := by
  rw [Bool.eq_iff_iff]
  simp [CharSet.contains, Unicode.Ranges.contains, isBlank, eq_iff_toNat]
  omega

theorem step_space (c : Char) :
    spaceAutomaton.step [2, 0] c = if isBlank c then [2, 0] else [] := by
  have hfollow : spaceAutomaton.follow c [2, 0] = if isBlank c then [1] else [] := by
    rw [← contains_blank]
    rfl
  rw [Automaton.step, hfollow]
  split <;> decide +kernel

theorem Automaton.not_takes_none (a : Automaton) (text : List Char) : ¬ a.Takes [] text := by
  induction text with
  | nil => simp [Automaton.accepts]
  | cons c rest ih => rwa [takes_cons, step_nil]

theorem takes_blanks_iff {text : List Char} : spaceAutomaton.Takes [2, 0] text ↔ IsSpace text := by
  induction text with
  | nil => exact iff_of_true (by decide) (List.forall_mem_nil _)
  | cons c rest ih =>
      rw [Automaton.takes_cons, step_space, IsSpace, List.forall_mem_cons]
      split
      · next hc => rw [ih, hc, eq_self, true_and, IsSpace]
      · next hc => exact iff_of_false (Automaton.not_takes_none _ _) fun h => hc h.1

/-- The pattern of optional white space takes the blanks. -/
theorem takes_space_iff {text : List Char} :
    spaceAutomaton.Takes spaceAutomaton.first text ↔ IsSpace text := by
  have hfirst : spaceAutomaton.first = [3, 2, 0] := by decide
  rw [hfirst]
  cases text with
  | nil => exact iff_of_true (by decide) (List.forall_mem_nil _)
  | cons c rest =>
      have hstep : spaceAutomaton.step [3, 2, 0] c = spaceAutomaton.step [2, 0] c := rfl
      rw [Automaton.takes_cons, hstep, ← Automaton.takes_cons, takes_blanks_iff]

/-- The text does not begin with a blank. -/
def StartsFilled (text : List Char) : Prop := ∀ c ∈ text.head?, isBlank c = false

theorem startsFilled_nil : StartsFilled [] := fun _ h => by cases h

theorem startsFilled_cons_iff {c : Char} {text : List Char} :
    StartsFilled (c :: text) ↔ isBlank c = false := by
  simp [StartsFilled]

theorem isSpace_nil : IsSpace [] := List.forall_mem_nil _

theorem isSpace_append_iff {u v : List Char} : IsSpace (u ++ v) ↔ IsSpace u ∧ IsSpace v :=
  List.forall_mem_append

theorem dropWhile_blanks {u rest : List Char} (hu : IsSpace u) (hrest : StartsFilled rest) :
    (u ++ rest).dropWhile isBlank = rest := by
  rw [List.dropWhile_append_of_pos hu]
  cases rest with
  | nil => rfl
  | cons c rest => simp [startsFilled_cons_iff.1 hrest]

theorem blanks_unique {u u' rest rest' : List Char} (hu : IsSpace u) (hu' : IsSpace u')
    (hrest : StartsFilled rest) (hrest' : StartsFilled rest') (h : u ++ rest = u' ++ rest') :
    u = u' ∧ rest = rest' := by
  have hsame : rest = rest' := by
    rw [← dropWhile_blanks hu hrest, h, dropWhile_blanks hu' hrest']
  subst hsame
  exact ⟨List.append_cancel_right h, rfl⟩

theorem exists_blanks (text : List Char) :
    ∃ u rest, text = u ++ rest ∧ IsSpace u ∧ StartsFilled rest := by
  refine ⟨text.takeWhile isBlank, text.dropWhile isBlank, List.takeWhile_append_dropWhile.symm,
    fun c hc => List.mem_takeWhile_imp hc, fun c hc => ?_⟩
  have hhead := List.head?_dropWhile_not isBlank text
  rwa [Option.mem_def.1 hc] at hhead

theorem findEnd_space {u rest : List Char} (hu : IsSpace u) (hrest : StartsFilled rest) :
    spaceAutomaton.findEnd (u ++ rest) = some (byteLength u) := by
  apply Automaton.findEnd_append isAnchored_space (takes_space_iff.2 hu)
  rintro v w rfl hv htakes
  cases v with
  | nil => exact hv rfl
  | cons c v =>
      have hblank := (isSpace_append_iff.1 (takes_space_iff.1 htakes)).2 c List.mem_cons_self
      rw [startsFilled_cons_iff.1 hrest] at hblank
      cases hblank

theorem isSpace_of_findEnd {u rest : List Char}
    (h : spaceAutomaton.findEnd (u ++ rest) = some (byteLength u)) : IsSpace u :=
  takes_space_iff.1 (Automaton.takes_of_findEnd isAnchored_space h)

/-! ## Numbers -/

def IsDigits (text : List Char) : Prop := text ≠ [] ∧ ∀ c ∈ text, c.isDigit = true

theorem isDigits_cons_iff {c : Char} {rest : List Char} :
    IsDigits (c :: rest) ↔ c.isDigit = true ∧ ∀ d ∈ rest, d.isDigit = true := by
  simp [IsDigits]

/-- A point with digits, or nothing. -/
def IsFraction (text : List Char) : Prop := text = [] ∨ ∃ ds, text = '.' :: ds ∧ IsDigits ds

def IsSign (c : Char) : Prop := c = '+' ∨ c = '-'

def IsExponentMark (c : Char) : Prop := c = 'e' ∨ c = 'E'

instance (c : Char) : Decidable (IsSign c) := inferInstanceAs (Decidable (_ ∨ _))

instance (c : Char) : Decidable (IsExponentMark c) := inferInstanceAs (Decidable (_ ∨ _))

/-- Digits with a sign or without one. -/
def IsSigned (text : List Char) : Prop :=
  IsDigits text ∨ ∃ s ds, text = s :: ds ∧ IsSign s ∧ IsDigits ds

/-- An `e` with digits that may have a sign, or nothing. -/
def IsExponent (text : List Char) : Prop :=
  text = [] ∨ ∃ e ds, text = e :: ds ∧ IsExponentMark e ∧ IsSigned ds

/-- Digits, perhaps none, and behind them something else. -/
def DigitsThen (P : List Char → Prop) (text : List Char) : Prop :=
  ∃ ds rest, text = ds ++ rest ∧ (∀ c ∈ ds, c.isDigit = true) ∧ P rest

/-- What may follow the digits of a number: a fraction and an exponent. -/
def IsScale (text : List Char) : Prop := ∃ f e, text = f ++ e ∧ IsFraction f ∧ IsExponent e

/-- The text begins with nothing that could belong to a number before it. -/
def EndsNumber (rest : List Char) : Prop :=
  ∀ c ∈ rest.head?, c.isDigit = false ∧ c ≠ '.' ∧ ¬ IsExponentMark c

theorem endsNumber_nil : EndsNumber [] := fun _ h => by cases h

theorem endsNumber_cons_iff {c : Char} {rest : List Char} :
    EndsNumber (c :: rest) ↔ c.isDigit = false ∧ c ≠ '.' ∧ ¬ IsExponentMark c := by
  simp [EndsNumber]

theorem endsNumber_of_isBlank {c : Char} {rest : List Char} (hc : isBlank c = true) :
    EndsNumber (c :: rest) := by
  rw [endsNumber_cons_iff]
  simp only [isBlank, Bool.or_eq_true, decide_eq_true_eq] at hc
  rcases hc with ((rfl | rfl) | rfl) | rfl <;> decide

theorem endsNumber_append {u rest : List Char} (hu : IsSpace u) (hrest : EndsNumber rest) :
    EndsNumber (u ++ rest) := by
  cases u with
  | nil => exact hrest
  | cons c u => exact endsNumber_of_isBlank (hu c List.mem_cons_self)

theorem EndsNumber.of_append {u rest : List Char} (h : EndsNumber (u ++ rest)) : EndsNumber u := by
  cases u with
  | nil => exact endsNumber_nil
  | cons c u => exact endsNumber_cons_iff.2 (endsNumber_cons_iff.1 h)

/-! ### Character by character -/

section Cons

variable {c : Char} {rest : List Char} {P : List Char → Prop}

theorem not_mark_of_isDigit (hc : c.isDigit = true) : ¬ IsExponentMark c := by
  rw [isDigit_iff] at hc
  rintro (rfl | rfl) <;> simp at hc

theorem not_sign_of_isDigit (hc : c.isDigit = true) : ¬ IsSign c := by
  rw [isDigit_iff] at hc
  rintro (rfl | rfl) <;> simp at hc

theorem isSigned_cons_iff :
    IsSigned (c :: rest) ↔
      if c.isDigit then ∀ d ∈ rest, d.isDigit = true else IsSign c ∧ IsDigits rest := by
  simp only [IsSigned, isDigits_cons_iff, List.cons.injEq]
  split
  · next hc =>
      have hsign := not_sign_of_isDigit hc
      constructor
      · rintro (⟨-, hrest⟩ | ⟨s, ds, ⟨rfl, -⟩, hs, -⟩)
        · exact hrest
        · exact absurd hs hsign
      · exact fun hrest => .inl ⟨hc, hrest⟩
  · next hc =>
      constructor
      · rintro (⟨hdigit, -⟩ | ⟨s, ds, ⟨rfl, rfl⟩, hs, hds⟩)
        · exact absurd hdigit hc
        · exact ⟨hs, hds⟩
      · rintro ⟨hs, hrest⟩
        exact .inr ⟨c, rest, ⟨rfl, rfl⟩, hs, hrest⟩

theorem isExponent_cons_iff : IsExponent (c :: rest) ↔ IsExponentMark c ∧ IsSigned rest := by
  simp only [IsExponent, reduceCtorEq, List.cons.injEq, false_or]
  constructor
  · rintro ⟨e, ds, ⟨rfl, rfl⟩, h⟩
    exact h
  · exact fun h => ⟨c, rest, ⟨rfl, rfl⟩, h⟩

theorem digitsThen_nil_iff : DigitsThen P [] ↔ P [] := by
  simp [DigitsThen, and_assoc]

theorem digitsThen_cons_iff (hP : P (c :: rest) → c.isDigit = false) :
    DigitsThen P (c :: rest) ↔ if c.isDigit then DigitsThen P rest else P (c :: rest) := by
  split
  · next hc =>
      constructor
      · rintro ⟨ds, rest', heq, hds, hrest⟩
        cases ds with
        | nil =>
            rw [List.nil_append] at heq
            rw [← heq] at hrest
            rw [hP hrest] at hc
            cases hc
        | cons d ds =>
            obtain ⟨rfl, rfl⟩ := List.cons.inj heq
            exact ⟨ds, rest', rfl, (List.forall_mem_cons.1 hds).2, hrest⟩
      · rintro ⟨ds, rest', rfl, hds, hrest⟩
        exact ⟨c :: ds, rest', rfl, List.forall_mem_cons.2 ⟨hc, hds⟩, hrest⟩
  · next hc =>
      constructor
      · rintro ⟨ds, rest', heq, hds, hrest⟩
        cases ds with
        | nil =>
            rw [List.nil_append] at heq
            rwa [heq]
        | cons d ds =>
            obtain ⟨rfl, rfl⟩ := List.cons.inj heq
            exact absurd (List.forall_mem_cons.1 hds).1 hc
      · exact fun h => ⟨[], c :: rest, rfl, List.forall_mem_nil _, h⟩

theorem isScale_nil : IsScale [] := ⟨[], [], rfl, .inl rfl, .inl rfl⟩

theorem isScale_cons_iff :
    IsScale (c :: rest) ↔
      if c = '.' then ∃ ds e, rest = ds ++ e ∧ IsDigits ds ∧ IsExponent e
      else IsExponent (c :: rest) := by
  constructor
  · rintro ⟨f, e, heq, rfl | ⟨ds, rfl, hds⟩, he⟩
    · rw [List.nil_append] at heq
      rw [← heq] at he
      have hne : c ≠ '.' := by
        rintro rfl
        rcases (isExponent_cons_iff.1 he).1 with h | h <;> cases h
      rwa [if_neg hne]
    · obtain ⟨rfl, rfl⟩ := List.cons.inj heq
      rw [if_pos rfl]
      exact ⟨ds, e, rfl, hds, he⟩
  · split
    · next hc =>
        subst hc
        rintro ⟨ds, e, rfl, hds, he⟩
        exact ⟨'.' :: ds, e, rfl, .inr ⟨ds, rfl, hds⟩, he⟩
    · exact fun he => ⟨[], c :: rest, rfl, .inl rfl, he⟩

theorem exists_digits_cons_iff :
    (∃ ds e, c :: rest = ds ++ e ∧ IsDigits ds ∧ P e) ↔ c.isDigit = true ∧ DigitsThen P rest := by
  constructor
  · rintro ⟨ds, e, heq, hds, he⟩
    cases ds with
    | nil => exact absurd rfl hds.1
    | cons d ds =>
        obtain ⟨rfl, rfl⟩ := List.cons.inj heq
        obtain ⟨hc, hrest⟩ := isDigits_cons_iff.1 hds
        exact ⟨hc, ds, e, rfl, hrest, he⟩
  · rintro ⟨hc, ds, e, rfl, hds, he⟩
    exact ⟨c :: ds, e, rfl, isDigits_cons_iff.2 ⟨hc, hds⟩, he⟩

theorem not_isDigit_of_isExponent (h : IsExponent (c :: rest)) : c.isDigit = false := by
  rw [← Bool.not_eq_true]
  intro hc
  exact not_mark_of_isDigit hc (isExponent_cons_iff.1 h).1

theorem not_isDigit_of_isScale (h : IsScale (c :: rest)) : c.isDigit = false := by
  rw [isScale_cons_iff] at h
  split at h
  · next hc =>
      subst hc
      rfl
  · exact not_isDigit_of_isExponent h

end Cons

/-! ### The states of a number -/

/-- The states that the automaton of a number goes through behind its first digit. -/
structure NumberStates (a : Automaton) : Prop where
  /-- Behind a digit of the exponent. -/
  exponent : a.accepts [2, 0] = true ∧ ∀ c, a.step [2, 0] c = if c.isDigit then [2, 0] else []
  /-- Behind the sign of the exponent. -/
  sign : a.accepts [2] = false ∧ ∀ c, a.step [2] c = if c.isDigit then [2, 0] else []
  /-- Behind the `e`. -/
  mark : a.accepts [3, 2] = false ∧ ∀ c, a.step [3, 2] c =
    if c.isDigit then [2, 0] else if IsSign c then [2] else []
  /-- Where an exponent may begin. -/
  scale : a.accepts [5, 0] = true ∧ ∀ c, a.step [5, 0] c = if IsExponentMark c then [3, 2] else []
  /-- Behind a digit of the fraction. -/
  fraction : a.accepts [8, 5, 0] = true ∧
    ∀ c, a.step [8, 5, 0] c = if c.isDigit then [8, 5, 0] else a.step [5, 0] c
  /-- Behind the point. -/
  point : a.accepts [8] = false ∧ ∀ c, a.step [8] c = if c.isDigit then [8, 5, 0] else []
  /-- Where a fraction may begin. -/
  integer : a.accepts [9, 5, 0] = true ∧
    ∀ c, a.step [9, 5, 0] c = if c = '.' then [8] else a.step [5, 0] c
  /-- Behind a digit before the point. -/
  whole : a.accepts [12, 9, 5, 0] = true ∧
    ∀ c, a.step [12, 9, 5, 0] c = if c.isDigit then [12, 9, 5, 0] else a.step [9, 5, 0] c

/-- The sets of characters that are read in a number. -/
def digitSet : CharSet := { ranges := [(48, 57)] }

def signSet : CharSet := { ranges := [(43, 43), (45, 45)] }

def markSet : CharSet := { ranges := [(69, 69), (101, 101)] }

def pointSet : CharSet := { ranges := [(46, 46)] }

theorem contains_digitSet (c : Char) : digitSet.contains c = c.isDigit := by
  rw [Bool.eq_iff_iff, isDigit_iff]
  simp [digitSet, CharSet.contains, Unicode.Ranges.contains]

theorem contains_signSet (c : Char) : signSet.contains c = decide (IsSign c) := by
  rw [Bool.eq_iff_iff, decide_eq_true_iff, IsSign]
  simp [signSet, CharSet.contains, Unicode.Ranges.contains, eq_iff_toNat]
  omega

theorem contains_markSet (c : Char) : markSet.contains c = decide (IsExponentMark c) := by
  rw [Bool.eq_iff_iff, decide_eq_true_iff, IsExponentMark]
  simp [markSet, CharSet.contains, Unicode.Ranges.contains, eq_iff_toNat]
  omega

theorem contains_pointSet (c : Char) : pointSet.contains c = decide (c = '.') := by
  rw [Bool.eq_iff_iff, decide_eq_true_iff]
  simp [pointSet, CharSet.contains, Unicode.Ranges.contains, eq_iff_toNat]
  omega

theorem Automaton.follow_cons_read {a : Automaton} {n next : Nat} {s : CharSet}
    (h : a.state n = .read s next) (c : Char) (states : List Nat) :
    a.follow c (n :: states) =
      (if s.contains c then [next] else []) ++ a.follow c states := by
  rw [follow, h]
  simp only
  split <;> rfl

theorem Automaton.follow_cons_accept {a : Automaton} {n : Nat} (h : a.state n = .accept) (c : Char)
    (states : List Nat) : a.follow c (n :: states) = [] := by
  rw [follow, h]

theorem NumberStates.of_states {a : Automaton}
    (hstates : [0, 2, 3, 5, 8, 9, 12].map a.state =
      [.accept, .read digitSet 1, .read signSet 2, .read markSet 4, .read digitSet 7,
        .read pointSet 8, .read digitSet 11])
    (hreach : [[1], [2], [4], [7], [8], [11]].map (a.reach fun _ => false) =
      [[2, 0], [2], [3, 2], [8, 5, 0], [8], [12, 9, 5, 0]]) : NumberStates a := by
  simp only [List.map_cons, List.map_nil, List.cons.injEq, and_true] at hstates hreach
  obtain ⟨h0, h2, h3, h5, h8, h9, h12⟩ := hstates
  obtain ⟨r1, r2, r4, r7, r8, r11⟩ := hreach
  have hpoint {c : Char} (hc : c.isDigit = true) : c ≠ '.' := by
    rintro rfl
    cases hc
  constructor
  · refine ⟨by simp [Automaton.accepts, h2, h0], fun c => ?_⟩
    simp only [Automaton.step, Automaton.follow_cons_read h2, Automaton.follow_cons_accept h0,
      contains_digitSet]
    split <;> simp [r1]
  · refine ⟨by simp [Automaton.accepts, h2], fun c => ?_⟩
    simp only [Automaton.step, Automaton.follow_cons_read h2, Automaton.follow_nil,
      contains_digitSet]
    split <;> simp [r1]
  · refine ⟨by simp [Automaton.accepts, h3, h2], fun c => ?_⟩
    simp only [Automaton.step, Automaton.follow_cons_read h3, Automaton.follow_cons_read h2,
      Automaton.follow_nil, contains_digitSet, contains_signSet]
    by_cases hc : c.isDigit = true
    · simp [hc, not_sign_of_isDigit hc, r1]
    · by_cases hs : IsSign c <;> simp [hc, hs, r2]
  · refine ⟨by simp [Automaton.accepts, h5, h0], fun c => ?_⟩
    simp only [Automaton.step, Automaton.follow_cons_read h5, Automaton.follow_cons_accept h0,
      contains_markSet]
    by_cases he : IsExponentMark c <;> simp [he, r4]
  · refine ⟨by simp [Automaton.accepts, h8, h5, h0], fun c => ?_⟩
    simp only [Automaton.step, Automaton.follow_cons_read h8, Automaton.follow_cons_read h5,
      Automaton.follow_cons_accept h0, contains_digitSet, contains_markSet]
    by_cases hc : c.isDigit = true
    · simp [hc, not_mark_of_isDigit hc, r7]
    · simp [hc]
  · refine ⟨by simp [Automaton.accepts, h8], fun c => ?_⟩
    simp only [Automaton.step, Automaton.follow_cons_read h8, Automaton.follow_nil,
      contains_digitSet]
    split <;> simp [r7]
  · refine ⟨by simp [Automaton.accepts, h9, h5, h0], fun c => ?_⟩
    simp only [Automaton.step, Automaton.follow_cons_read h9, Automaton.follow_cons_read h5,
      Automaton.follow_cons_accept h0, contains_pointSet, contains_markSet]
    by_cases hc : c = '.'
    · have he : ¬ IsExponentMark '.' := by decide
      simp [hc, he, r8]
    · simp [hc]
  · refine ⟨by simp [Automaton.accepts, h12, h9, h5, h0], fun c => ?_⟩
    simp only [Automaton.step, Automaton.follow_cons_read h12, Automaton.follow_cons_read h9,
      Automaton.follow_cons_read h5, Automaton.follow_cons_accept h0, contains_digitSet,
      contains_pointSet, contains_markSet]
    by_cases hc : c.isDigit = true
    · simp [hc, not_mark_of_isDigit hc, hpoint hc, r11]
    · simp [hc]

namespace NumberStates

variable {a : Automaton} (h : NumberStates a) {text : List Char}

include h

theorem takes_exponent_iff : a.Takes [2, 0] text ↔ ∀ c ∈ text, c.isDigit = true := by
  induction text with
  | nil => exact iff_of_true h.exponent.1 (List.forall_mem_nil _)
  | cons c rest ih =>
      rw [Automaton.takes_cons, h.exponent.2, List.forall_mem_cons]
      split
      · next hc => rw [ih, hc, eq_self, true_and]
      · next hc => exact iff_of_false (a.not_takes_none _) fun hall => hc hall.1

theorem takes_sign_iff : a.Takes [2] text ↔ IsDigits text := by
  cases text with
  | nil => simp [h.sign.1, IsDigits]
  | cons c rest =>
      rw [Automaton.takes_cons, h.sign.2, isDigits_cons_iff]
      split
      · next hc => rw [h.takes_exponent_iff, hc, eq_self, true_and]
      · next hc => exact iff_of_false (a.not_takes_none _) fun hall => hc hall.1

theorem takes_mark_iff : a.Takes [3, 2] text ↔ IsSigned text := by
  cases text with
  | nil => simp [h.mark.1, IsSigned, IsDigits]
  | cons c rest =>
      rw [Automaton.takes_cons, h.mark.2, isSigned_cons_iff]
      split
      · rw [h.takes_exponent_iff]
      · split
        · next hs => rw [h.takes_sign_iff, and_iff_right hs]
        · next hs => exact iff_of_false (a.not_takes_none _) fun hall => hs hall.1

theorem takes_scale_iff : a.Takes [5, 0] text ↔ IsExponent text := by
  cases text with
  | nil => exact iff_of_true h.scale.1 (.inl rfl)
  | cons c rest =>
      rw [Automaton.takes_cons, h.scale.2, isExponent_cons_iff]
      split
      · next he => rw [h.takes_mark_iff, and_iff_right he]
      · next he => exact iff_of_false (a.not_takes_none _) fun hall => he hall.1

omit h in
/-- States that read digits and otherwise go on as others do. -/
theorem takes_digitsThen_iff {states others : List Nat} {P : List Char → Prop}
    (haccepts : a.accepts states = true)
    (hstep : ∀ c, a.step states c = if c.isDigit then states else a.step others c)
    (hothers : ∀ {text}, a.Takes others text ↔ P text) (hnil : P [])
    (hP : ∀ {c rest}, P (c :: rest) → c.isDigit = false) :
    a.Takes states text ↔ DigitsThen P text := by
  induction text with
  | nil => exact iff_of_true haccepts (digitsThen_nil_iff.2 hnil)
  | cons c rest ih =>
      rw [Automaton.takes_cons, hstep, digitsThen_cons_iff hP]
      split
      · exact ih
      · rw [← Automaton.takes_cons]
        exact hothers

theorem takes_fraction_iff : a.Takes [8, 5, 0] text ↔ DigitsThen IsExponent text :=
  takes_digitsThen_iff h.fraction.1 h.fraction.2 h.takes_scale_iff (.inl rfl)
    not_isDigit_of_isExponent

theorem takes_point_iff :
    a.Takes [8] text ↔ ∃ ds e, text = ds ++ e ∧ IsDigits ds ∧ IsExponent e := by
  cases text with
  | nil =>
      refine iff_of_false (by simp [h.point.1]) ?_
      rintro ⟨ds, e, heq, hds, -⟩
      exact hds.1 (List.append_eq_nil_iff.1 heq.symm).1
  | cons c rest =>
      rw [Automaton.takes_cons, h.point.2, exists_digits_cons_iff]
      split
      · next hc => rw [h.takes_fraction_iff, hc, eq_self, true_and]
      · next hc => exact iff_of_false (a.not_takes_none _) fun hall => hc hall.1

theorem takes_integer_iff : a.Takes [9, 5, 0] text ↔ IsScale text := by
  cases text with
  | nil => exact iff_of_true h.integer.1 isScale_nil
  | cons c rest =>
      rw [Automaton.takes_cons, h.integer.2, isScale_cons_iff]
      split
      · exact h.takes_point_iff
      · rw [← Automaton.takes_cons]
        exact h.takes_scale_iff

/-- Behind a digit before the point there may be more of them, a fraction and an exponent. -/
theorem takes_whole_iff : a.Takes [12, 9, 5, 0] text ↔ DigitsThen IsScale text :=
  takes_digitsThen_iff h.whole.1 h.whole.2 h.takes_integer_iff isScale_nil not_isDigit_of_isScale

/-! ### Ends of numbers -/

omit h in
/-- The lists of states behind the first digit. -/
def lists : List (List Nat) :=
  [[], [2, 0], [2], [3, 2], [5, 0], [8, 5, 0], [8], [9, 5, 0], [12, 9, 5, 0]]

theorem step_mem_lists {states : List Nat} (hstates : states ∈ lists) (c : Char) :
    a.step states c ∈ lists := by
  have hscale : a.step [5, 0] c ∈ lists := by
    rw [h.scale.2]
    split <;> simp [lists]
  have hinteger : a.step [9, 5, 0] c ∈ lists := by
    rw [h.integer.2]
    split
    · simp [lists]
    · exact hscale
  simp only [lists, List.mem_cons, List.not_mem_nil, or_false] at hstates
  rcases hstates with rfl | rfl | rfl | rfl | rfl | rfl | rfl | rfl | rfl
  · simp [Automaton.step_nil, lists]
  · rw [h.exponent.2]
    split <;> simp [lists]
  · rw [h.sign.2]
    split <;> simp [lists]
  · rw [h.mark.2]
    split
    · simp [lists]
    · split <;> simp [lists]
  · exact hscale
  · rw [h.fraction.2]
    split
    · simp [lists]
    · exact hscale
  · rw [h.point.2]
    split <;> simp [lists]
  · exact hinteger
  · rw [h.whole.2]
    split
    · simp [lists]
    · exact hinteger

theorem after_mem_lists {states : List Nat} (hstates : states ∈ lists) (text : List Char) :
    a.after states text ∈ lists := by
  induction text generalizing states with
  | nil => exact hstates
  | cons c rest ih => exact ih (h.step_mem_lists hstates c)

theorem step_of_accepts {states : List Nat} (hstates : states ∈ lists)
    (haccepts : a.accepts states = true) {c : Char} (hdigit : c.isDigit = false) (hpoint : c ≠ '.')
    (hmark : ¬ IsExponentMark c) : a.step states c = [] := by
  have hscale : a.step [5, 0] c = [] := by rw [h.scale.2, if_neg hmark]
  have hinteger : a.step [9, 5, 0] c = [] := by rw [h.integer.2, if_neg hpoint, hscale]
  have hno : ¬ c.isDigit = true := by
    rw [hdigit]
    exact Bool.false_ne_true
  simp only [lists, List.mem_cons, List.not_mem_nil, or_false] at hstates
  rcases hstates with rfl | rfl | rfl | rfl | rfl | rfl | rfl | rfl | rfl
  · exact Automaton.step_nil c
  · rw [h.exponent.2, if_neg hno]
  · rw [h.sign.1] at haccepts
    cases haccepts
  · rw [h.mark.1] at haccepts
    cases haccepts
  · exact hscale
  · rw [h.fraction.2, if_neg hno, hscale]
  · rw [h.point.1] at haccepts
    cases haccepts
  · exact hinteger
  · rw [h.whole.2, if_neg hno, hinteger]

theorem not_takes_append {states : List Nat} (hstates : states ∈ lists) {u v : List Char}
    (hu : a.Takes states u) (hv : EndsNumber v) (hne : v ≠ []) : ¬ a.Takes states (u ++ v) := by
  cases v with
  | nil => exact absurd rfl hne
  | cons c v =>
      obtain ⟨hdigit, hpoint, hmark⟩ := endsNumber_cons_iff.1 hv
      rw [Automaton.takes_append, Automaton.takes_cons,
        h.step_of_accepts (h.after_mem_lists hstates u) hu hdigit hpoint hmark]
      exact a.not_takes_none v

end NumberStates

end Peg
