import Peg.Proofs.Arithmetic.Evaluation

/-!
# Integers of 64 bits

Operations on integers give the exact result where that is an integer of 64 bits, and a floating-point
number anywhere else, with one exception: the remainder of the least integer and minus one, whose
quotient does not fit, is computed in floating point although it is zero. Expressions in which every
result is such an integer are evaluated without any rounding. Main statement:
`integer_arithmetic_exact`.
-/

namespace Peg.Arithmetic

namespace Operator

/-- The result of an operation on integers is an integer. A remainder has the sign of the dividend. -/
def IsResult : Operator → Int → Int → Int → Prop
  | add, a, b, q => q = a + b
  | sub, a, b, q => q = a - b
  | mul, a, b, q => q = a * b
  | div, a, b, q => b ≠ 0 ∧ b * q = a
  | rem, a, b, q => b ≠ 0 ∧ b ∣ a - q ∧ q.natAbs < b.natAbs ∧ (0 ≤ a → 0 ≤ q) ∧ (a ≤ 0 → q ≤ 0)

/-- The remainder that is computed by way of a quotient which does not fit. -/
structure Overflows (op : Operator) (a b : Int) : Prop where
  operator : op = rem
  dividend : a = minInt64
  divisor : b = -1

structure Computes (op : Operator) (a b q : Int) : Prop where
  result : op.IsResult a b q
  fits : fitsInt64 q = true
  regular : ¬ op.Overflows a b

end Operator

/-! ## One operation -/

theorem fitsInt64_iff {n : Int} : fitsInt64 n = true ↔ minInt64 ≤ n ∧ n ≤ maxInt64 := by
  rw [fitsInt64, Bool.and_eq_true, decide_eq_true_iff, decide_eq_true_iff]

theorem int64?_eq_some_iff {n q : Int} : int64? n = some q ↔ q = n ∧ fitsInt64 q = true := by
  unfold int64?
  split
  · next hfits =>
      rw [Option.some.injEq]
      constructor
      · rintro rfl
        exact ⟨rfl, hfits⟩
      · rintro ⟨rfl, -⟩
        rfl
  · next hfits =>
      constructor
      · nofun
      · rintro ⟨rfl, hq⟩
        exact absurd hq hfits

theorem remainder?_eq_some_iff {a b r : Int} :
    remainder? a b = some r ↔ b ≠ 0 ∧ fitsInt64 (a.tdiv b) = true ∧ a.tmod b = r := by
  unfold remainder?
  by_cases hb : b = 0
  · simp [hb]
  · by_cases hfits : fitsInt64 (a.tdiv b) = true
    · simp [hb, hfits]
    · simp [hb, hfits]

/-! ### Remainders -/

theorem isResult_tmod (a : Int) {b : Int} (hb : b ≠ 0) : Operator.rem.IsResult a b (a.tmod b) := by
  refine ⟨hb, Int.dvd_self_sub_tmod, ?_, fun ha => Int.tmod_nonneg b ha, fun ha => ?_⟩
  · rw [Int.natAbs_tmod]
    exact Nat.mod_lt _ (Int.natAbs_pos.2 hb)
  · have hneg := Int.tmod_nonneg b (Int.neg_nonneg_of_nonpos ha)
    rw [Int.neg_tmod] at hneg
    omega

theorem isResult_rem_iff {a b q : Int} : Operator.rem.IsResult a b q ↔ b ≠ 0 ∧ a.tmod b = q := by
  constructor
  · rintro ⟨hb, hdvd, hlt, hnonneg, hnonpos⟩
    obtain ⟨-, hdvd', hlt', hnonneg', hnonpos'⟩ := isResult_tmod a hb
    have hdvd_sub : b ∣ a.tmod b - q := by
      have hsub : a.tmod b - q = a - q - (a - a.tmod b) := by omega
      rw [hsub]
      exact Int.dvd_sub hdvd hdvd'
    have hclose : (a.tmod b - q).natAbs < b.natAbs := by
      rcases Int.le_total 0 a with ha | ha
      · have hq := hnonneg ha
        have hq' := hnonneg' ha
        omega
      · have hq := hnonpos ha
        have hq' := hnonpos' ha
        omega
    exact ⟨hb, Int.sub_eq_zero.1 (Int.eq_zero_of_dvd_of_natAbs_lt_natAbs hdvd_sub hclose)⟩
  · rintro ⟨hb, rfl⟩
    exact isResult_tmod a hb

theorem fitsInt64_tmod {a b : Int} (ha : fitsInt64 a = true) (hb : b ≠ 0) :
    fitsInt64 (a.tmod b) = true := by
  obtain ⟨-, -, -, hnonneg, hnonpos⟩ := isResult_tmod a hb
  have hle : (a.tmod b).natAbs ≤ a.natAbs := by
    rw [Int.natAbs_tmod]
    exact Nat.mod_le _ _
  rw [fitsInt64_iff] at ha ⊢
  unfold minInt64 maxInt64 at *
  omega

/-! ### Quotients -/

theorem fitsInt64_tdiv {a b : Int} (ha : fitsInt64 a = true) (h : ¬ (a = minInt64 ∧ b = -1)) :
    fitsInt64 (a.tdiv b) = true := by
  rw [fitsInt64_iff] at ha ⊢
  unfold minInt64 maxInt64 at *
  obtain rfl | rfl | rfl | hlarge : b = -1 ∨ b = 0 ∨ b = 1 ∨ 2 ≤ b.natAbs := by omega
  · rw [Int.tdiv_neg, Int.tdiv_one]
    omega
  · rw [Int.tdiv_zero]
    omega
  · rw [Int.tdiv_one]
    exact ha
  · have hhalf : (a.tdiv b).natAbs ≤ a.natAbs / 2 := by
      rw [Int.natAbs_tdiv]
      exact Nat.div_le_div_left hlarge (by decide)
    omega

theorem isResult_div_iff {a b q : Int} :
    Operator.div.IsResult a b q ↔ b ≠ 0 ∧ a.tmod b = 0 ∧ a.tdiv b = q := by
  constructor
  · rintro ⟨hb, rfl⟩
    exact ⟨hb, Int.mul_tmod_right b q, Int.mul_tdiv_cancel_left q hb⟩
  · rintro ⟨hb, hmod, rfl⟩
    exact ⟨hb, Int.mul_tdiv_cancel' (Int.dvd_of_tmod_eq_zero hmod)⟩

theorem integral?_eq_some_iff {op : Operator} {a b q : Int} (ha : fitsInt64 a = true)
    (h : ¬ op.Overflows a b) : integral? op a b = some q ↔ op.IsResult a b q ∧ fitsInt64 q = true := by
  cases op with
  | add | sub | mul => exact int64?_eq_some_iff
  | div =>
      rw [isResult_div_iff]
      simp only [integral?, remainder?_eq_some_iff]
      constructor
      · intro heq
        split at heq
        · next hexact =>
            cases heq
            obtain ⟨hb, hfits, hmod⟩ := hexact
            exact ⟨⟨hb, hmod, rfl⟩, hfits⟩
        · cases heq
      · rintro ⟨⟨hb, hmod, rfl⟩, hfits⟩
        rw [if_pos ⟨hb, hfits, hmod⟩]
  | rem =>
      rw [isResult_rem_iff]
      simp only [integral?, remainder?_eq_some_iff]
      constructor
      · rintro ⟨hb, -, rfl⟩
        exact ⟨⟨hb, rfl⟩, fitsInt64_tmod ha hb⟩
      · rintro ⟨⟨hb, rfl⟩, -⟩
        exact ⟨hb, fitsInt64_tdiv ha fun ⟨ha', hb'⟩ => h ⟨rfl, ha', hb'⟩, rfl⟩

/-! ### Numbers -/

section Apply

variable (op : Operator) (a b : Int)

theorem apply_int : (Number.int a).apply op (.int b) =
    (integral? op a b).elim (.float (inexact op (Binary64.ofInt a) (Binary64.ofInt b))) .int := by
  simp only [Number.apply]
  cases integral? op a b <;> rfl

variable {op a b} (ha : fitsInt64 a = true) (h : ¬ op.Overflows a b)

include ha h

theorem apply_int_eq_int_iff {q : Int} :
    (Number.int a).apply op (.int b) = .int q ↔ op.IsResult a b q ∧ fitsInt64 q = true := by
  rw [apply_int, ← integral?_eq_some_iff ha h]
  cases integral? op a b with
  | none => exact ⟨nofun, nofun⟩
  | some n => rw [Option.elim_some, Number.int.injEq, Option.some.injEq]

theorem apply_int_eq_float_iff : (∃ x, (Number.int a).apply op (.int b) = .float x) ↔
    ¬ ∃ q, op.IsResult a b q ∧ fitsInt64 q = true := by
  simp only [apply_int, ← integral?_eq_some_iff ha h]
  cases integral? op a b with
  | none => exact ⟨fun _ => nofun, fun _ => ⟨_, rfl⟩⟩
  | some n => exact ⟨nofun, fun hnone => absurd ⟨n, rfl⟩ hnone⟩

end Apply

theorem Operator.Computes.apply_eq {op : Operator} {a b q : Int} (h : op.Computes a b q)
    (ha : fitsInt64 a = true) : (Number.int a).apply op (.int b) = .int q :=
  (apply_int_eq_int_iff ha h.regular).2 ⟨h.result, h.fits⟩

/-! ## Expressions -/

mutual

/-- All results in the tree are integers of 64 bits, the last one of them is `n`. -/
inductive Tree.Computes : {c : Category} → Tree c → Int → Prop
  | number {literal : Numeral} {n : Int} : Member.readInt64? (String.ofList literal.1) = some n →
      Tree.Computes (.number literal) n
  | parens {before after : Blanks} {inner : Tree (.chain .additive)} {n : Int} :
      Tree.Computes inner n → Tree.Computes (.parens before inner after) n
  | primary {t : Tree .primary} {n : Int} : Tree.Computes t n → Tree.Computes (.primary t) n
  | negate {space : Blanks} {operand : Tree .unary} {n q : Int} : Tree.Computes operand n →
      Operator.sub.Computes 0 n q → Tree.Computes (.negate space operand) q
  | chain {level : Level} {head : Tree level.operand} {tail : Tail level} {a n : Int} :
      Tree.Computes head a → Tail.Computes tail a n → Tree.Computes (.chain level head tail) n

/-- The operations of the tail lead from the first integer to the second one by way of others. -/
inductive Tail.Computes : {level : Level} → Tail level → Int → Int → Prop
  | nil {level : Level} {a : Int} : Tail.Computes (.nil level) a a
  | cons {level : Level} {before after : Blanks} {op : { op : Operator // op ∈ level.operators }}
      {operand : Tree level.operand} {tail : Tail level} {a b q n : Int} :
      Tree.Computes operand b → op.1.Computes a b q → Tail.Computes tail q n →
      Tail.Computes (.cons level before op after operand tail) a n

end

theorem Number.ofValue_int {n : Int} (h : fitsInt64 n = true) : Number.ofValue (.int n) = .int n := by
  simp only [Number.ofValue, Value.toInt64?, if_pos h]

theorem fitsInt64_of_readInt64? {s : String} {n : Int} (h : Member.readInt64? s = some n) :
    fitsInt64 n = true := by
  have hrange {digits? : Option Nat} {f : Nat → Int}
      (h : (digits?.bind fun k => if fitsInt64 (f k) then some (f k) else none) = some n) :
      fitsInt64 n = true := by
    obtain ⟨k, -, hk⟩ := Option.bind_eq_some_iff.1 h
    split at hk
    · next hfits =>
        cases hk
        exact hfits
    · cases hk
  unfold Member.readInt64? at h
  split at h
  · exact hrange h
  · exact hrange h
  · exact hrange h

mutual

theorem Tree.Computes.value_eq {c : Category} {t : Tree c} {n : Int} (h : t.Computes n) :
    t.value = .int n ∧ fitsInt64 n = true := by
  cases h with
  | @number literal _ hread =>
      rw [Tree.value, (literal_spec literal.2).1 n hread]
      exact ⟨rfl, fitsInt64_of_readInt64? hread⟩
  | parens h | primary h =>
      rw [Tree.value]
      exact h.value_eq
  | negate h hsub =>
      obtain ⟨hvalue, hfits⟩ := h.value_eq
      rw [Tree.value, hvalue, Number.ofValue_int hfits, hsub.apply_eq (by decide)]
      exact ⟨rfl, hsub.fits⟩
  | chain hhead htail =>
      obtain ⟨hvalue, hfits⟩ := hhead.value_eq
      obtain ⟨hfold, hfits'⟩ := htail.fold_eq hfits
      rw [Tree.value, hvalue, Number.ofValue_int hfits, hfold]
      exact ⟨rfl, hfits'⟩

theorem Tail.Computes.fold_eq {level : Level} {t : Tail level} {a n : Int} (h : t.Computes a n)
    (ha : fitsInt64 a = true) : t.fold (.int a) = .int n ∧ fitsInt64 n = true := by
  cases h with
  | nil => exact ⟨by rw [Tail.fold], ha⟩
  | cons hoperand hop htail =>
      obtain ⟨hvalue, hfits⟩ := hoperand.value_eq
      rw [Tail.fold, hvalue, Number.ofValue_int hfits, hop.apply_eq ha]
      exact htail.fold_eq hop.fits

end

/-- Operations on integers of 64 bits give the exact result if it is one as well, and floating-point
numbers only if it is not, unless the remainder by minus one of the least integer is asked for,
which is always a floating-point number. An expression whose results are such integers is evaluated
to the last one of them, unless it is nested too deep, which it is not with up to 33 brackets and signs
around an operand. -/
theorem integer_arithmetic_exact (op : Operator) (a b : Int) (ha : fitsInt64 a = true) (text : String)
    (t : Expression) (htext : t.yield = text.toList) :
    (¬ op.Overflows a b →
      (∀ q, (Number.int a).apply op (.int b) = .int q ↔ op.IsResult a b q ∧ fitsInt64 q = true) ∧
      ((∃ x, (Number.int a).apply op (.int b) = .float x) ↔
        ¬ ∃ q, op.IsResult a b q ∧ fitsInt64 q = true)) ∧
    (op.Overflows a b → ∃ x, (Number.int a).apply op (.int b) = .float x) ∧
    ∀ n, t.body.Computes n →
      ((∃ error, evaluate text = .error error ∧ error.kind = .depthLimit) ∨
        evaluate text = .ok (.int n)) ∧
      (t.body.depth ≤ 33 → evaluate text = .ok (.int n)) := by
  refine ⟨fun h => ⟨fun q => apply_int_eq_int_iff ha h, apply_int_eq_float_iff ha h⟩, ?_, ?_⟩
  · rintro ⟨rfl, rfl, rfl⟩
    exact ⟨_, apply_int _ _ _⟩
  · intro n hn
    have hresult := (evaluate_eq_ok_iff text).imp_right fun hvalues =>
      (hvalues (.int n)).2 ⟨t, htext, hn.value_eq.1⟩
    refine ⟨hresult, fun hdepth => ?_⟩
    rcases hresult with ⟨error, herror, hkind⟩ | hok
    · have hnesting := lt_nesting_of_depthLimit herror hkind
      rw [← htext, t.nesting_yield] at hnesting
      exact absurd hdepth (Nat.not_le.2 hnesting)
    · exact hok

/-- Seven leaves one over when it is divided by minus two. -/
theorem integer_arithmetic_exact_sevens :
    fitsInt64 7 = true ∧ ¬ Operator.rem.Overflows 7 (-2) ∧
      (Number.int 7).apply .rem (.int (-2)) = .int 1 ∧
      Operator.rem.Overflows minInt64 (-1) ∧
      (∃ x, (Number.int minInt64).apply .rem (.int (-1)) = .float x) ∧
      ∃ t : Expression, t.yield = "7 % -2".toList ∧ t.body.Computes 1 ∧
        evaluate "7 % -2" = .ok (.int 1) := by
  let digit (c : Char) (hc : c.isDigit = true) : Numeral :=
    ⟨[c], [c], [], rfl, ⟨nofun, List.forall_mem_singleton.2 hc⟩, [], [], rfl, .inl rfl, .inl rfl⟩
  let blank : Blanks := ⟨[' '], List.forall_mem_singleton.2 rfl⟩
  let two : Tree .unary := .negate ⟨[], nofun⟩ (.primary (.number (digit '2' rfl)))
  let seven : Tree .unary := .primary (.number (digit '7' rfl))
  let t : Expression :=
    ⟨⟨[], nofun⟩,
      .chain .additive
        (.chain .multitive seven (.cons .multitive blank ⟨.rem, by decide⟩ blank two (.nil .multitive)))
        (.nil .additive), ⟨[], nofun⟩⟩
  have hseven : fitsInt64 7 = true := by decide
  have hregular : ¬ Operator.rem.Overflows 7 (-2) := fun h => absurd h.divisor (by decide)
  have hrem : Operator.rem.IsResult 7 (-2) 1 := by
    refine ⟨by decide, by decide, by decide, by decide, by decide⟩
  have hoverflows : Operator.rem.Overflows minInt64 (-1) := ⟨rfl, rfl, rfl⟩
  have hyield : t.yield = "7 % -2".toList := by decide +kernel
  have htwo : two.Computes (-2) := by
    refine .negate (.primary (.number (n := 2) (by decide +kernel))) ⟨rfl, by decide, ?_⟩
    exact fun h => absurd h.operator (by decide)
  have hcomputes : t.body.Computes 1 :=
    .chain (.chain (.primary (.number (n := 7) (by decide +kernel)))
      (.cons htwo ⟨hrem, by decide, hregular⟩ .nil)) .nil
  obtain ⟨hoperation, -, hexpression⟩ := integer_arithmetic_exact .rem 7 (-2) hseven _ t hyield
  obtain ⟨-, hoverflow, -⟩ := integer_arithmetic_exact .rem minInt64 (-1) (by decide) _ t hyield
  refine ⟨hseven, hregular, ((hoperation hregular).1 1).2 ⟨hrem, by decide⟩, hoverflows,
    hoverflow hoverflows, t, hyield, hcomputes, (hexpression 1 hcomputes).2 (by decide)⟩

/-- The remainder by minus one of the least integer is zero, but it is not given as an integer. -/
theorem remainder_of_least :
    ¬ ∀ op a b q, fitsInt64 a = true → fitsInt64 b = true → Operator.IsResult op a b q →
      fitsInt64 q = true → (Number.int a).apply op (.int b) = .int q := by
  intro h
  have hzero : Operator.rem.IsResult minInt64 (-1) 0 := isResult_tmod minInt64 (by decide)
  have hint := h .rem minInt64 (-1) 0 (by decide) (by decide) hzero (by decide)
  rw [apply_int] at hint
  cases hint

end Peg.Arithmetic
