import Peg.Proofs.Arithmetic.Numeral

/-!
# Syntax trees of arithmetic expressions

The grammar of expressions as a type of syntax trees, with the text that a tree spells out and the
value that its structure gives. Chains of operands are trees with a head and a tail, and their tails
fold operations over a number from left to right. A text is spelled out by one tree at most. Main
statement: `Expression.yield_injective`.
-/

namespace Peg.Arithmetic

abbrev Blanks := { text : List Char // IsSpace text }

abbrev Numeral := { text : List Char // IsNumeral text }

def Operator.symbol : Operator → Char
  | .add => '+'
  | .sub => '-'
  | .mul => '*'
  | .div => '/'
  | .rem => '%'

/-- The levels at which operands are joined by operators. -/
inductive Level where
  | additive
  | multitive

def Level.operators : Level → List Operator
  | additive => [.add, .sub]
  | multitive => [.mul, .div, .rem]

inductive Category where
  | primary
  | unary
  | chain (level : Level)

def Level.operand : Level → Category
  | additive => .chain .multitive
  | multitive => .unary

mutual

inductive Tree : Category → Type where
  | number (literal : Numeral) : Tree .primary
  | parens (before : Blanks) (inner : Tree (.chain .additive)) (after : Blanks) : Tree .primary
  | primary (t : Tree .primary) : Tree .unary
  | negate (space : Blanks) (operand : Tree .unary) : Tree .unary
  | chain (level : Level) (head : Tree level.operand) (tail : Tail level) : Tree (.chain level)

/-- The operations of a chain behind its head. -/
inductive Tail : Level → Type where
  | nil (level : Level) : Tail level
  | cons (level : Level) (before : Blanks) (op : { op : Operator // op ∈ level.operators })
      (after : Blanks) (operand : Tree level.operand) (tail : Tail level) : Tail level

end

/-- An expression with the blanks around it. -/
structure Expression where
  before : Blanks
  body : Tree (.chain .additive)
  after : Blanks

/-! ## Text and value -/

mutual

def Tree.yield {c : Category} : Tree c → List Char
  | .number literal => literal.1
  | .parens before inner after => '(' :: (before.1 ++ (inner.yield ++ (after.1 ++ [')'])))
  | .primary t => t.yield
  | .negate space operand => '-' :: (space.1 ++ operand.yield)
  | .chain _ head tail => head.yield ++ tail.yield

def Tail.yield {level : Level} : Tail level → List Char
  | .nil _ => []
  | .cons _ before op after operand tail =>
    before.1 ++ (op.1.symbol :: (after.1 ++ (operand.yield ++ tail.yield)))

end

mutual

def Tree.value {c : Category} : Tree c → Value
  | .number text => (literal text.1).toValue
  | .parens _ inner _ => inner.value
  | .primary t => t.value
  | .negate _ operand => ((Number.int 0).apply .sub (.ofValue operand.value)).toValue
  | .chain _ head tail => (tail.fold (.ofValue head.value)).toValue

/-- Applies the operations of a tail to a number, one after the other. -/
def Tail.fold {level : Level} : Tail level → Number → Number
  | .nil _, n => n
  | .cons _ _ op _ operand tail, n => tail.fold (n.apply op.1 (.ofValue operand.value))

end

namespace Expression

def yield (e : Expression) : List Char := e.before.1 ++ (e.body.yield ++ e.after.1)

def value (e : Expression) : Value := e.body.value

end Expression

/-! ## How trees begin -/

/-- A character that an operand can begin with. -/
def Begins (c : Char) : Prop := c.isDigit = true ∨ c = '(' ∨ c = '-'

theorem Begins.not_isBlank {c : Char} (h : Begins c) : isBlank c = false := by
  rcases h with h | rfl | rfl
  · rw [isDigit_iff] at h
    rw [← Bool.not_eq_true]
    simp only [isBlank, eq_iff_toNat, Bool.or_eq_true, decide_eq_true_eq]
    simp
    omega
  · rfl
  · rfl

theorem IsNumeral.exists_cons {text : List Char} (h : IsNumeral text) :
    ∃ c rest, text = c :: rest ∧ c.isDigit = true := by
  cases text with
  | nil => exact absurd h not_isNumeral_nil
  | cons c rest => exact ⟨c, rest, rfl, (isNumeral_cons_iff.1 h).1⟩

theorem Tree.exists_yield_primary (t : Tree .primary) :
    ∃ c rest, t.yield = c :: rest ∧ (c.isDigit = true ∨ c = '(') := by
  cases t with
  | number literal =>
      obtain ⟨c, rest, hliteral, hc⟩ := literal.2.exists_cons
      exact ⟨c, rest, by rw [yield, hliteral], .inl hc⟩
  | parens before inner after => exact ⟨'(', _, by rw [yield], .inr rfl⟩

theorem Tree.exists_yield {c : Category} (t : Tree c) : ∃ d rest, t.yield = d :: rest ∧ Begins d := by
  cases t with
  | number literal =>
      obtain ⟨d, rest, hliteral, hd⟩ := literal.2.exists_cons
      exact ⟨d, rest, by rw [yield, hliteral], .inl hd⟩
  | parens before inner after => exact ⟨'(', _, by rw [yield], .inr (.inl rfl)⟩
  | primary t =>
      obtain ⟨d, rest, ht, hd⟩ := t.exists_yield
      exact ⟨d, rest, by rw [yield, ht], hd⟩
  | negate space operand => exact ⟨'-', _, by rw [yield], .inr (.inr rfl)⟩
  | chain level head tail =>
      obtain ⟨d, rest, hhead, hd⟩ := head.exists_yield
      exact ⟨d, rest ++ tail.yield, by rw [yield, hhead, List.cons_append], hd⟩

theorem Tree.startsFilled {c : Category} (t : Tree c) (rest : List Char) :
    StartsFilled (t.yield ++ rest) := by
  obtain ⟨d, front, ht, hd⟩ := t.exists_yield
  rw [ht, List.cons_append, startsFilled_cons_iff]
  exact hd.not_isBlank

/-! ## What may follow -/

/-- The operators that would continue a text of the category. -/
def Category.joiners : Category → List Operator
  | primary => []
  | unary => []
  | chain .multitive => [.mul, .div, .rem]
  | chain .additive => [.add, .sub, .mul, .div, .rem]

/-- A text of the category is not continued by what follows. -/
structure Follows (c : Category) (rest : List Char) : Prop where
  ends : EndsNumber rest
  stops : ∀ op ∈ c.joiners, (rest.dropWhile isBlank).head? ≠ some op.symbol

/-- A character that no number and no operand can go on with. -/
structure Closes (c : Category) (d : Char) : Prop where
  digit : d.isDigit = false
  point : d ≠ '.'
  mark : ¬ IsExponentMark d
  blank : isBlank d = false
  stops : ∀ op ∈ c.joiners, d ≠ op.symbol

theorem Closes.follows {c : Category} {d : Char} {u rest : List Char} (h : Closes c d)
    (hu : IsSpace u) : Follows c (u ++ d :: rest) where
  ends := endsNumber_append hu (endsNumber_cons_iff.2 ⟨h.digit, h.point, h.mark⟩)
  stops op hop := by
    rw [dropWhile_blanks hu (startsFilled_cons_iff.2 h.blank), List.head?_cons, ne_eq,
      Option.some.injEq]
    exact h.stops op hop

theorem follows_blanks (c : Category) {u : List Char} (hu : IsSpace u) : Follows c u where
  ends := by
    rw [← List.append_nil u]
    exact endsNumber_append hu endsNumber_nil
  stops op hop := by
    have hbeyond := dropWhile_blanks hu startsFilled_nil
    rw [List.append_nil] at hbeyond
    rw [hbeyond]
    exact Option.some_ne_none _ |>.symm

theorem closes_paren (c : Category) : Closes c ')' := by
  refine ⟨rfl, by decide, by decide, rfl, ?_⟩
  intro op _
  cases op <;> decide

theorem closes_operator {level : Level} {op : Operator} (h : op ∈ level.operators) :
    Closes level.operand op.symbol := by
  refine ⟨?_, ?_, ?_, ?_, ?_⟩
  · cases op <;> rfl
  · cases op <;> decide
  · cases op <;> decide
  · cases op <;> rfl
  · cases level <;> revert op <;> decide

theorem Follows.operand {level : Level} {rest : List Char} (h : Follows (.chain level) rest) :
    Follows level.operand rest where
  ends := h.ends
  stops op hop := by
    apply h.stops op
    cases level with
    | additive => exact List.mem_append_right [.add, .sub] hop
    | multitive => cases hop

theorem Tail.follows {level : Level} (t : Tail level) {rest : List Char}
    (h : Follows (.chain level) rest) : Follows level.operand (t.yield ++ rest) := by
  cases t with
  | nil => exact h.operand
  | cons _ before op after operand tail =>
      rw [yield, List.append_assoc]
      exact (closes_operator op.2).follows before.2

theorem Operator.symbol_injective : Function.Injective symbol := by
  intro op op' h
  cases op <;> cases op' <;> first | rfl | exact absurd h (by decide)

theorem Follows.ne_operation {level : Level} {rest : List Char} (h : Follows (.chain level) rest)
    {op : Operator} (hop : op ∈ level.operators) {u text : List Char} (hu : IsSpace u) :
    rest ≠ u ++ op.symbol :: text := by
  have hjoins : op ∈ (Category.chain level).joiners := by
    clear h
    cases level <;> revert op <;> decide
  rintro rfl
  have hfilled : StartsFilled (op.symbol :: text) := startsFilled_cons_iff.2 (by cases op <;> rfl)
  apply h.stops op hjoins
  rw [dropWhile_blanks hu hfilled, List.head?_cons]

/-! ## One tree for a text -/

/-- A tree is the only one that a text can begin with. -/
def Tree.IsUnique {c : Category} (t : Tree c) : Prop :=
  ∀ (t' : Tree c) {rest rest' : List Char}, t.yield ++ rest = t'.yield ++ rest' →
    Follows c rest → Follows c rest' → t = t' ∧ rest = rest'

def Tail.IsUnique {level : Level} (t : Tail level) : Prop :=
  ∀ (t' : Tail level) {rest rest' : List Char}, t.yield ++ rest = t'.yield ++ rest' →
    Follows (.chain level) rest → Follows (.chain level) rest' → t = t' ∧ rest = rest'

theorem Tree.isUnique_number (literal : Numeral) : (number literal).IsUnique := by
  intro t' rest rest' h hrest hrest'
  cases t' with
  | number literal' =>
      rw [yield, yield] at h
      obtain ⟨hsame, hrests⟩ := numeral_unique literal.2 literal'.2 hrest.ends hrest'.ends h
      exact ⟨by rw [Subtype.ext hsame], hrests⟩
  | parens before inner after =>
      obtain ⟨d, front, hliteral, hd⟩ := literal.2.exists_cons
      rw [yield, yield, hliteral] at h
      rw [(List.cons.inj h).1] at hd
      cases hd

theorem Tree.isUnique_parens {inner : Tree (.chain .additive)} (hinner : inner.IsUnique)
    (before after : Blanks) : (parens before inner after).IsUnique := by
  intro t' rest rest' h hrest hrest'
  cases t' with
  | number literal =>
      obtain ⟨d, front, hliteral, hd⟩ := literal.2.exists_cons
      rw [yield, yield, hliteral] at h
      rw [← (List.cons.inj h).1] at hd
      cases hd
  | parens before' inner' after' =>
      simp only [yield, List.cons_append, List.append_assoc, List.cons.injEq, true_and] at h
      obtain ⟨hbefore, h⟩ :=
        blanks_unique before.2 before'.2 (inner.startsFilled _) (inner'.startsFilled _) h
      obtain ⟨rfl, hclose⟩ := hinner inner' h ((closes_paren _).follows after.2)
        ((closes_paren _).follows after'.2)
      have hfilled (rest : List Char) : StartsFilled (')' :: rest) := startsFilled_cons_iff.2 rfl
      obtain ⟨hafter, hrests⟩ := blanks_unique after.2 after'.2 (hfilled _) (hfilled _) hclose
      rw [Subtype.ext hbefore, Subtype.ext hafter]
      exact ⟨rfl, (List.cons.inj hrests).2⟩

theorem Tree.isUnique_primary {t : Tree .primary} (ht : t.IsUnique) : (primary t).IsUnique := by
  intro t' rest rest' h hrest hrest'
  cases t' with
  | primary t' =>
      rw [yield, yield] at h
      obtain ⟨rfl, hrests⟩ := ht t' h ⟨hrest.ends, hrest.stops⟩ ⟨hrest'.ends, hrest'.stops⟩
      exact ⟨rfl, hrests⟩
  | negate space operand =>
      obtain ⟨d, front, ht, hd⟩ := t.exists_yield_primary
      rw [yield, yield, ht] at h
      rw [(List.cons.inj h).1] at hd
      rcases hd with hd | hd <;> cases hd

theorem Tree.isUnique_negate {operand : Tree .unary} (hoperand : operand.IsUnique)
    (space : Blanks) : (negate space operand).IsUnique := by
  intro t' rest rest' h hrest hrest'
  cases t' with
  | primary t' =>
      obtain ⟨d, front, ht, hd⟩ := t'.exists_yield_primary
      rw [yield, yield, ht] at h
      rw [← (List.cons.inj h).1] at hd
      rcases hd with hd | hd <;> cases hd
  | negate space' operand' =>
      simp only [yield, List.cons_append, List.append_assoc, List.cons.injEq, true_and] at h
      obtain ⟨hspace, h⟩ :=
        blanks_unique space.2 space'.2 (operand.startsFilled _) (operand'.startsFilled _) h
      obtain ⟨rfl, hrests⟩ := hoperand operand' h hrest hrest'
      rw [Subtype.ext hspace]
      exact ⟨rfl, hrests⟩

theorem Tree.isUnique_chain {level : Level} {head : Tree level.operand} {tail : Tail level}
    (hhead : head.IsUnique) (htail : tail.IsUnique) : (chain level head tail).IsUnique := by
  intro t' rest rest' h hrest hrest'
  cases t' with
  | chain _ head' tail' =>
      rw [yield, yield, List.append_assoc, List.append_assoc] at h
      obtain ⟨rfl, hbehind⟩ := hhead head' h (tail.follows hrest) (tail'.follows hrest')
      obtain ⟨rfl, hrests⟩ := htail tail' hbehind hrest hrest'
      exact ⟨rfl, hrests⟩

theorem Tail.isUnique_nil (level : Level) : (nil level).IsUnique := by
  intro t' rest rest' h hrest hrest'
  cases t' with
  | nil => exact ⟨rfl, h⟩
  | cons _ before op after operand tail =>
      simp only [yield, List.nil_append, List.append_assoc, List.cons_append] at h
      exact absurd h (hrest.ne_operation op.2 before.2)

theorem Tail.isUnique_cons {level : Level} {operand : Tree level.operand} {tail : Tail level}
    (hoperand : operand.IsUnique) (htail : tail.IsUnique) (before : Blanks)
    (op : { op : Operator // op ∈ level.operators }) (after : Blanks) :
    (cons level before op after operand tail).IsUnique := by
  intro t' rest rest' h hrest hrest'
  cases t' with
  | nil =>
      simp only [yield, List.nil_append, List.append_assoc, List.cons_append] at h
      exact absurd h.symm (hrest'.ne_operation op.2 before.2)
  | cons _ before' op' after' operand' tail' =>
      simp only [yield, List.cons_append, List.append_assoc] at h
      have hfilled (op : Operator) (text : List Char) : StartsFilled (op.symbol :: text) :=
        startsFilled_cons_iff.2 (by cases op <;> rfl)
      obtain ⟨hbefore, h⟩ := blanks_unique before.2 before'.2 (hfilled _ _) (hfilled _ _) h
      obtain ⟨hop, h⟩ := List.cons.inj h
      obtain ⟨hafter, h⟩ :=
        blanks_unique after.2 after'.2 (operand.startsFilled _) (operand'.startsFilled _) h
      obtain ⟨rfl, hbehind⟩ := hoperand operand' h (tail.follows hrest) (tail'.follows hrest')
      obtain ⟨rfl, hrests⟩ := htail tail' hbehind hrest hrest'
      rw [Subtype.ext hbefore, Subtype.ext (Operator.symbol_injective hop), Subtype.ext hafter]
      exact ⟨rfl, hrests⟩

theorem Tree.isUnique {c : Category} (t : Tree c) : t.IsUnique :=
  @Tree.rec (fun _ t => t.IsUnique) (fun _ t => t.IsUnique)
    isUnique_number
    (fun before _ after ih => isUnique_parens ih before after)
    (fun _ ih => isUnique_primary ih)
    (fun space _ ih => isUnique_negate ih space)
    (fun _ _ _ ihhead ihtail => isUnique_chain ihhead ihtail)
    Tail.isUnique_nil
    (fun _ before op after _ _ ihoperand ihtail =>
      Tail.isUnique_cons ihoperand ihtail before op after)
    c t

/-- No two expressions spell out the same text. -/
theorem Expression.yield_injective : Function.Injective Expression.yield := by
  intro e e' h
  obtain ⟨before, body, after⟩ := e
  obtain ⟨before', body', after'⟩ := e'
  simp only [Expression.yield] at h
  obtain ⟨hbefore, h⟩ :=
    blanks_unique before.2 before'.2 (body.startsFilled _) (body'.startsFilled _) h
  obtain ⟨rfl, hafter⟩ :=
    body.isUnique body' h (follows_blanks _ after.2) (follows_blanks _ after'.2)
  rw [Subtype.ext hbefore, Subtype.ext hafter]

end Peg.Arithmetic
