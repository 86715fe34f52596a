import Peg.Proofs.Arithmetic.Syntax

/-!
# Nesting of expressions

How deep brackets and signs nest in a text, told without a syntax tree, so that any text has a nesting.
A sign reaches as far as its operand, so neither long chains nor chains of negative numbers are nested
deep. A text that a tree spells out is nested as deep as the tree. Main statements:
`Tree.level_scan` and `Expression.nesting_yield`.
-/

namespace Peg.Arithmetic

/-- What a text should go on with. -/
inductive Awaited where
  | operand
  | operator

/-- How deep the operand at the beginning of a text nests, what is behind it in the same brackets, and
what is behind these, up to the end of the next ones around it and so on. -/
structure Scan where
  own : Nat
  here : Nat
  beyond : List Nat

namespace Scan

/-- How deep the operand nests or what is behind it in the same brackets. -/
def level (s : Scan) : Nat := max s.own s.here

/-- What is behind an operand that nests `k` deep, taken together with it. -/
def behind (s : Scan) (k : Nat) : Scan := ⟨0, max k s.here, s.beyond⟩

/-- The operand taken together with what is behind it. -/
def joined (s : Scan) : Scan := s.behind s.own

theorem joined_eq_self {s : Scan} (h : s.own = 0) : s.joined = s := by
  obtain ⟨own, here, beyond⟩ := s
  cases h
  rw [joined, behind, Nat.zero_max]

end Scan

def IsOperator (c : Char) : Prop := c ∈ ['+', '-', '*', '/', '%']

instance (c : Char) : Decidable (IsOperator c) := inferInstanceAs (Decidable (_ ∈ _))

def scan : Awaited → List Char → Scan
  | _, [] => ⟨0, 0, []⟩
  | .operand, c :: cs =>
    let s := scan .operand cs
    if c = '-' then ⟨s.own + 1, s.here, s.beyond⟩
    else if c = '(' then ⟨s.level + 1, s.beyond.headD 0, s.beyond.tail⟩
    else if isBlank c then s
    else scan .operator cs
  | .operator, c :: cs =>
    let s := scan .operator cs
    if c = ')' then ⟨0, 0, s.here :: s.beyond⟩
    else if IsOperator c then (scan .operand cs).joined
    else s

/-- How many brackets and signs stand around an operand at most. -/
def nesting (text : List Char) : Nat := (scan .operand text).level

/-- How many stand around an operand at most in the first operand of the text. -/
def operandNesting (text : List Char) : Nat := (scan .operand text).own

example : nesting "-1 - -2 - -(3 - (4))".toList = 3 := by decide

theorem operandNesting_le (text : List Char) : operandNesting text ≤ nesting text :=
  Nat.le_max_left _ _

theorem own_operator (text : List Char) : (scan .operator text).own = 0 := by
  induction text with
  | nil => rfl
  | cons c cs ih =>
      rw [scan]
      split_ifs <;> first | rfl | exact ih

/-! ## Blanks, signs and brackets -/

section Blanks

variable {c : Char} {u rest : List Char}

theorem not_isOperator_of_isBlank (h : isBlank c = true) : c ≠ ')' ∧ ¬ IsOperator c := by
  simp only [isBlank, Bool.or_eq_true, decide_eq_true_eq] at h
  rcases h with ((rfl | rfl) | rfl) | rfl <;> decide

theorem scan_space (h : IsSpace u) (awaited : Awaited) :
    scan awaited (u ++ rest) = scan awaited rest := by
  induction u with
  | nil => rfl
  | cons c cs ih =>
      obtain ⟨hc, hcs⟩ := List.forall_mem_cons.1 h
      obtain ⟨hclose, hoperator⟩ := not_isOperator_of_isBlank hc
      rw [List.cons_append]
      cases awaited with
      | operator => rw [scan, if_neg hclose, if_neg hoperator, ih hcs]
      | operand =>
          have hminus : c ≠ '-' := by rintro rfl; cases hc
          have hopen : c ≠ '(' := by rintro rfl; cases hc
          rw [scan, if_neg hminus, if_neg hopen, if_pos hc, ih hcs]

theorem operandNesting_minus (h : IsSpace u) :
    operandNesting ('-' :: (u ++ rest)) = operandNesting rest + 1 := by
  rw [operandNesting, scan, if_pos rfl, scan_space h, operandNesting]

theorem operandNesting_paren (h : IsSpace u) :
    operandNesting ('(' :: (u ++ rest)) = nesting rest + 1 := by
  rw [operandNesting, scan, if_neg (by decide), if_pos rfl, scan_space h, nesting]

theorem scan_operator {before after : List Char} (hbefore : IsSpace before) (op : Operator)
    (hafter : IsSpace after) : scan .operator (before ++ (op.symbol :: (after ++ rest))) =
      (scan .operand rest).joined := by
  rw [scan_space hbefore, scan, if_neg (by cases op <;> decide),
    if_pos (by cases op <;> decide), scan_space hafter]

end Blanks

/-! ## Numbers -/

section Numbers

variable {u rest : List Char}

theorem scan_digit {c : Char} (h : c.isDigit = true) (awaited : Awaited) :
    scan awaited (c :: rest) = scan .operator rest := by
  have hne (d : Char) (hd : d.isDigit = false) : c ≠ d := by
    rintro rfl
    cases h.symm.trans hd
  cases awaited with
  | operand =>
      have hblank : ¬ isBlank c = true := by
        rw [Begins.not_isBlank (.inl h)]
        exact Bool.false_ne_true
      rw [scan, if_neg (hne _ rfl), if_neg (hne _ rfl), if_neg hblank]
  | operator =>
      have hoperator : ¬ IsOperator c := by
        simp only [IsOperator, List.mem_cons, List.not_mem_nil, or_false, not_or]
        exact ⟨hne _ rfl, hne _ rfl, hne _ rfl, hne _ rfl, hne _ rfl⟩
      rw [scan, if_neg (hne _ rfl), if_neg hoperator]

theorem scan_digits (h : IsDigits u) (awaited : Awaited) :
    scan awaited (u ++ rest) = scan .operator rest := by
  obtain ⟨hne, hall⟩ := h
  induction u generalizing awaited with
  | nil => exact absurd rfl hne
  | cons c cs ih =>
      obtain ⟨hc, hcs⟩ := List.forall_mem_cons.1 hall
      rw [List.cons_append, scan_digit hc]
      cases cs with
      | nil => rfl
      | cons d ds => exact ih .operator (List.cons_ne_nil d ds) hcs

theorem scan_skip {c : Char} (hclose : c ≠ ')') (h : ¬ IsOperator c) :
    scan .operator (c :: rest) = scan .operator rest := by
  rw [scan, if_neg hclose, if_neg h]

theorem scan_scale (h : IsScale u) : scan .operator (u ++ rest) = scan .operator rest := by
  obtain ⟨fraction, exponent, rfl, hfraction, hexponent⟩ := h
  have hback : scan .operator (exponent ++ rest) = scan .operator rest := by
    rcases hexponent with rfl | ⟨mark, signed, rfl, hmark, hsigned⟩
    · rfl
    rw [List.cons_append, scan_skip (by rcases hmark with rfl | rfl <;> decide)
      (by rcases hmark with rfl | rfl <;> decide)]
    rcases hsigned with hds | ⟨sign, ds, rfl, hsign, hds⟩
    · exact scan_digits hds _
    · -- the sign of an exponent is taken for an operator, and its digits for the operand behind it
      have hoperator : IsOperator sign := by rcases hsign with rfl | rfl <;> decide
      have hclose : sign ≠ ')' := by rcases hsign with rfl | rfl <;> decide
      rw [List.cons_append, scan, if_neg hclose, if_pos hoperator, scan_digits hds,
        Scan.joined_eq_self (own_operator rest)]
  rw [List.append_assoc]
  rcases hfraction with rfl | ⟨ds, rfl, hds⟩
  · exact hback
  · rw [List.cons_append, scan_skip (by decide) (by decide), scan_digits hds, hback]

theorem scan_numeral (h : IsNumeral u) : scan .operand (u ++ rest) = scan .operator rest := by
  obtain ⟨digits, scale, rfl, hdigits, hscale⟩ := h
  rw [List.append_assoc, scan_digits hdigits, scan_scale hscale]

end Numbers

/-! ## Trees -/

mutual

def Tree.depth {c : Category} : Tree c → Nat
  | .number _ => 0
  | .parens _ inner _ => inner.depth + 1
  | .primary t => t.depth
  | .negate _ operand => operand.depth + 1
  | .chain _ head tail => max head.depth tail.depth

def Tail.depth {level : Level} : Tail level → Nat
  | .nil _ => 0
  | .cons _ _ _ _ operand tail => max operand.depth tail.depth

end

/-- A category of operands that are no chains. -/
def Category.IsOperand : Category → Prop
  | primary => True
  | unary => True
  | chain _ => False

/-- A tree is scanned to its depth, and what stands behind it as if it were behind an operand. -/
structure Tree.IsScanned {c : Category} (t : Tree c) : Prop where
  joined : ∀ rest, (scan .operand (t.yield ++ rest)).joined = (scan .operator rest).behind t.depth
  operand : c.IsOperand →
    ∀ rest, scan .operand (t.yield ++ rest) = { scan .operator rest with own := t.depth }

def Tail.IsScanned {level : Level} (t : Tail level) : Prop :=
  ∀ rest, scan .operator (t.yield ++ rest) = (scan .operator rest).behind t.depth

theorem Tree.isScanned_of_operand {c : Category} {t : Tree c}
    (h : ∀ rest, scan .operand (t.yield ++ rest) = { scan .operator rest with own := t.depth }) :
    t.IsScanned :=
  ⟨fun rest => by rw [h]; rfl, fun _ => h⟩

theorem Tree.isScanned_number (literal : Numeral) : (number literal).IsScanned :=
  isScanned_of_operand fun rest => by
    rw [yield, scan_numeral literal.2, depth, ← own_operator rest]

theorem Tree.isScanned_parens {inner : Tree (.chain .additive)} (h : inner.IsScanned)
    (before after : Blanks) : (parens before inner after).IsScanned := by
  refine isScanned_of_operand fun rest => ?_
  have hclose : scan .operator (after.1 ++ (')' :: rest)) =
      ⟨0, 0, (scan .operator rest).here :: (scan .operator rest).beyond⟩ := by
    rw [scan_space after.2, scan, if_pos rfl]
  have hinner := h.joined (after.1 ++ (')' :: rest))
  rw [hclose, Scan.joined, Scan.behind, Scan.behind, Nat.max_zero, Scan.mk.injEq] at hinner
  simp only [yield, List.cons_append, List.append_assoc, List.nil_append]
  rw [scan, if_neg (by decide), if_pos rfl, scan_space before.2, hinner.2.2, Scan.level, hinner.2.1]
  rfl

theorem Tree.isScanned_primary {t : Tree .primary} (h : t.IsScanned) : (primary t).IsScanned :=
  isScanned_of_operand (h.operand trivial)

theorem Tree.isScanned_negate {operand : Tree .unary} (h : operand.IsScanned) (space : Blanks) :
    (negate space operand).IsScanned :=
  isScanned_of_operand fun rest => by
    rw [yield, List.cons_append, scan, if_pos rfl, List.append_assoc, scan_space space.2,
      h.operand trivial rest, depth]

theorem Tree.isScanned_chain {level : Level} {head : Tree level.operand} {tail : Tail level}
    (hhead : head.IsScanned) (htail : tail.IsScanned) : (chain level head tail).IsScanned where
  joined rest := by
    rw [yield, List.append_assoc, hhead.joined, htail, depth, Scan.behind, Scan.behind, Scan.behind,
      Nat.max_assoc]
  operand := False.elim

theorem Tail.isScanned_nil (level : Level) : (nil level).IsScanned := fun rest => by
  rw [yield, List.nil_append, depth, ← own_operator rest]
  exact (Scan.joined_eq_self (own_operator rest)).symm

theorem Tail.isScanned_cons {level : Level} {operand : Tree level.operand} {tail : Tail level}
    (hoperand : operand.IsScanned) (htail : tail.IsScanned) (before : Blanks)
    (op : { op : Operator // op ∈ level.operators }) (after : Blanks) :
    (cons level before op after operand tail).IsScanned := by
  intro rest
  simp only [yield, List.append_assoc, List.cons_append]
  rw [scan_operator before.2 op.1 after.2, hoperand.joined, htail, depth, Scan.behind, Scan.behind,
    Scan.behind, Nat.max_assoc]

theorem Tree.isScanned {c : Category} (t : Tree c) : t.IsScanned :=
  @Tree.rec (fun _ t => t.IsScanned) (fun _ t => t.IsScanned)
    isScanned_number
    (fun before _ after ih => isScanned_parens ih before after)
    (fun _ ih => isScanned_primary ih)
    (fun space _ ih => isScanned_negate ih space)
    (fun _ _ _ ihhead ihtail => isScanned_chain ihhead ihtail)
    Tail.isScanned_nil
    (fun _ before op after _ _ ihoperand ihtail =>
      Tail.isScanned_cons ihoperand ihtail before op after)
    c t

theorem Expression.nesting_yield (e : Expression) : nesting e.yield = e.body.depth := by
  have hbody := congrArg Scan.here (e.body.isScanned.joined (e.after.1 ++ []))
  rw [scan_space e.after.2, Scan.behind, scan, Nat.max_zero, List.append_nil] at hbody
  rw [nesting, yield, scan_space e.before.2]
  exact hbody

theorem nesting_operation_le {level : Level} (t : Tree (.chain level)) {before after rest : List Char}
    (hbefore : IsSpace before) (op : Operator) (hafter : IsSpace after) :
    nesting rest ≤ nesting (t.yield ++ (before ++ (op.symbol :: (after ++ rest)))) := by
  have hchain := congrArg Scan.here
    (t.isScanned.joined (before ++ (op.symbol :: (after ++ rest))))
  rw [scan_operator hbefore op hafter] at hchain
  exact (Nat.le_max_right _ _).trans_eq hchain.symm

end Peg.Arithmetic
