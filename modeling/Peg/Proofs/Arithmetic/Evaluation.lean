import Peg.Proofs.Arithmetic.Nesting
import Peg.Proofs.Parse.Meaning
import Peg.Proofs.Semantics.Lexemes

/-!
# Evaluation of expressions

What the rules of arithmetic read are the texts that syntax trees spell out, and the values of the
matches are those of the trees. The proof follows the trees, one lemma for each way to make one. Main
statement: `evaluate_spec`.
-/

namespace Peg.Arithmetic

open Library (reads_space reads_literal refuses_literal reads_reference reads_labelled readsAll_cons
  readsAll_last readsNamed_of_reads forall_mem_none forall_mem_some)

/-! ## Members -/

theorem isLocal_number : number.IsLocal := fun m m' htext _ => by rw [number, number, htext]

theorem isLocal_negate : negate.IsLocal := by
  intro m m' htext hchildren
  rw [negate, negate, Member.isLocal_capture "unary" m m' htext hchildren]

theorem isLocal_chain : chain.IsLocal := fun m m' _ hchildren => by rw [chain, chain, hchildren]

/-! ## The grammar -/

theorem added : Library.add {} draft = .ok library := Library.add_eq_ok_of_isSome (by decide +kernel)

theorem defines (i : Nat) {name : String} {e : Expr} (h : draft.definitions[i]? = some (name, e)) :
    library.Defines 0 name e :=
  Library.implements_of_single rfl added (List.mem_of_getElem? h)

def Level.rule : Level → String
  | additive => "additive"
  | multitive => "multitive"

def Level.operatorRule : Level → String
  | additive => "additive_op"
  | multitive => "multitive_op"

def Category.rule : Category → String
  | primary => "primary"
  | unary => "unary"
  | chain level => level.rule

def Level.operation (level : Level) : Expr :=
  .seq [space, .label (.ref level.operatorRule) "op", space,
    .label (.ref level.operand.rule) "operand"]

theorem defines_chain (level : Level) : library.Defines 0 level.rule
    ((Expr.seq [.label (.ref level.operand.rule) "head", .zeroOrMore level.operation]).value chain) := by
  cases level with
  | additive => exact defines 1 rfl
  | multitive => exact defines 2 rfl

def symbols (operators : List Operator) : List Expr :=
  operators.map fun op => .literal (String.singleton op.symbol)

def parenthesized : Expr :=
  (Expr.seq [.literal "(", space, .ref "additive", space, .literal ")"]).value
    (Member.capture "additive")

theorem defines_primary :
    library.Defines 0 "primary" (.choice [.ref "number", parenthesized]) :=
  defines 4 rfl

def negation : Expr := (Expr.seq [.literal "-", space, .ref "unary"]).value negate

theorem defines_unary : library.Defines 0 "unary" (.choice [negation, .ref "primary"]) :=
  defines 3 rfl

theorem defines_operators (level : Level) :
    library.Defines 0 level.operatorRule (.choice (symbols level.operators)) := by
  cases level with
  | additive => exact defines 6 rfl
  | multitive => exact defines 7 rfl

/-! ## Reading operators -/

section Symbols

variable {lib : Library} {g : Nat} {owner : String} {operators : List Operator} {op : Operator}
  {u rest text : List Char}

theorem toList_symbol (op : Operator) : (String.singleton op.symbol).toList = [op.symbol] :=
  String.toList_singleton _

theorem readsFirst_symbols (hop : op ∈ operators) :
    lib.ReadsFirst g owner (symbols operators) [op.symbol] rest
      fun m => m.Bears [] none [op.symbol] [] := by
  induction operators with
  | nil => cases hop
  | cons first operators ih =>
      by_cases heq : op = first
      · subst heq
        refine Library.readsFirst_found (rfl : _ = Extension.ofValue? none) ?_
        rw [← toList_symbol]
        exact Library.reads_text forall_mem_none fun m hm => hm
      · have hop' := (List.mem_cons.1 hop).resolve_left heq
        refine Library.readsFirst_next (refuses_literal (toList_symbol first) ?_) (ih hop')
        rw [List.cons_append, List.head?_cons, ne_eq, Option.some.injEq]
        exact fun h => heq (Operator.symbol_injective h)

theorem refusesEach_symbols (h : ∀ op ∈ operators, text.head? ≠ some op.symbol) :
    lib.RefusesEach g owner (symbols operators) text := by
  induction operators with
  | nil => exact Library.refusesEach_nil
  | cons first operators ih =>
      obtain ⟨hfirst, hrest⟩ := List.forall_mem_cons.1 h
      exact Library.refusesEach_cons (refuses_literal (toList_symbol first) hfirst) (ih hrest)

theorem exists_of_generates_symbols {L : String → List Char → Prop} (operators : List Operator)
    (h : Expr.GeneratesOne L (symbols operators) u) : ∃ op ∈ operators, u = [op.symbol] := by
  induction operators with
  | nil => cases h
  | cons first operators ih =>
      rcases h with h | h
      · have hu := Library.eq_of_generates_literal h
        exact ⟨first, List.mem_cons_self, hu.trans (toList_symbol first)⟩
      · obtain ⟨op, hop, hu⟩ := ih h
        exact ⟨op, List.mem_cons_of_mem first hop, hu⟩

end Symbols

/-- What is read of an operator. -/
structure Written (op : Operator) (m : Match) : Prop where
  operator : Operator.ofText? m.text = some op
  hasName : m.hasName "operand" = false

theorem reads_operator {level : Level} {op : Operator} (hop : op ∈ level.operators)
    (rest : List Char) :
    library.ReadsNamed 0 level.operatorRule [op.symbol] rest (Written op) := by
  apply readsNamed_of_reads (defines_operators level) (rfl : _ = Extension.ofValue? none)
  refine Library.reads_choice forall_mem_none (readsFirst_symbols hop) ?_
  intro m m' hwraps hbears
  constructor
  · rw [hwraps.text, hbears.text]
    cases op <;> rfl
  · rw [← Bool.not_eq_true, hwraps.hasName, hbears.hasName]
    cases level <;> decide

theorem refuses_operator {level : Level} {text : List Char}
    (h : ∀ op ∈ level.operators, text.head? ≠ some op.symbol) :
    library.RefusesNamed 0 level.operatorRule text :=
  Library.refusesNamed_of_refuses (defines_operators level)
    (Library.refuses_choice (refusesEach_symbols h))

/-! ## Reading trees -/

/-- A match of the rule of a category, valued like a tree. -/
structure Category.Values (c : Category) (v : Value) (m : Match) : Prop where
  hasName : m.hasName c.rule = true
  value : m.value = v

/-- The rule of its category reads a tree where nothing continues it. -/
def Tree.IsRead {c : Category} (t : Tree c) : Prop :=
  ∀ rest, Follows c rest → library.ReadsNamed 0 c.rule t.yield rest (c.Values t.value)

/-- The rounds of a chain read a tail where nothing continues it. -/
def Tail.IsRead {level : Level} (t : Tail level) : Prop :=
  ∀ rest count, Follows (.chain level) rest →
    library.ReadsRounds 0 level.rule level.operation 0 none count t.yield rest
      fun ms => ∀ n, ms.foldl continueWith n = t.fold n

theorem Category.values_of_wraps {c : Category} {v : Value} {m inner : Match} {f? : Option Member}
    (h : m.Wraps inner [c.rule] f?) (hv : m.value = v) : c.Values v m :=
  ⟨(h.hasName c.rule).2 (.inl List.mem_cons_self), hv⟩

section References

variable {c : Category} {t : Tree c} {rest : List Char} {owner label : String}

theorem Tree.IsRead.reference (h : t.IsRead) (hrest : Follows c rest) :
    library.Reads 0 owner (.ref c.rule) none none t.yield rest (c.Values t.value) := by
  apply Library.reads_ref forall_mem_none (h rest hrest)
  intro m inner hwraps hinner
  exact ⟨hwraps.hasName_inner hinner.hasName, hwraps.value.trans hinner.value⟩

theorem Tree.IsRead.labelled (h : t.IsRead) (hrest : Follows c rest) :
    library.Reads 0 owner (.label (.ref c.rule) label) none none t.yield rest
      fun m => m.hasName label = true ∧ m.value = t.value := by
  refine Library.reads_label forall_mem_none rfl (h.reference hrest) ?_
  intro m inner hwraps hinner
  exact ⟨(hwraps.hasName label).2 (.inl List.mem_cons_self), hwraps.value.trans hinner.value⟩

end References

/-! ### Primary expressions -/

theorem reads_number (literal : Numeral) {rest : List Char} (hrest : EndsNumber rest) :
    library.ReadsNamed 0 "number" literal.1 rest
      fun m => m.value = (Arithmetic.literal literal.1).toValue := by
  apply readsNamed_of_reads (defines 5 rfl) (rfl : _ = Extension.ofValue? (some number))
  refine Library.reads_extended (Library.reads_pattern (forall_mem_some isLocal_number) ?_ ?_)
  · intro p hp
    rw [automaton_number hp]
    exact findEnd_number literal.2 hrest
  · intro m hm
    rw [hm.value, Option.elim_some, number, hm.text, String.toList_ofList]

theorem refuses_number {text : List Char} (h : ∀ c ∈ text.head?, c.isDigit = false) :
    library.RefusesNamed 0 "number" text := by
  apply Library.refusesNamed_of_refuses (defines 5 rfl)
  refine Library.refuses_extended (Library.refuses_pattern ?_)
  intro p hp
  rw [automaton_number hp]
  exact findEnd_number_eq_none h

theorem Tree.isRead_number (literal : Numeral) : (number literal).IsRead := by
  intro rest hrest
  apply readsNamed_of_reads defines_primary (rfl : _ = Extension.ofValue? none)
  refine Library.reads_choice forall_mem_none
    (Library.readsFirst_found rfl (reads_reference (reads_number literal hrest.ends))) ?_
  rintro m inner hwraps ⟨target, htarget, hreference⟩
  exact Category.values_of_wraps hwraps (hwraps.value.trans (hreference.value.trans htarget))

theorem reads_parenthesized {inner : Tree (.chain .additive)} (hinner : inner.IsRead)
    (before after : Blanks) (rest : List Char) :
    library.Reads 0 "primary" parenthesized none (some (Member.capture "additive"))
      (Tree.parens before inner after).yield rest fun m => m.value = inner.value := by
  have hclose : library.ReadsAll 0 "primary" [.literal ")"] [')'] rest _ :=
    readsAll_last rfl reads_literal
  have hafter : library.ReadsAll 0 "primary" [space, .literal ")"] (after.1 ++ [')']) rest _ :=
    readsAll_cons rfl (reads_space after.2 (startsFilled_cons_iff.2 rfl)) hclose
  have hfollows : Follows (.chain .additive) ((after.1 ++ [')']) ++ rest) := by
    rw [List.append_assoc]
    exact (closes_paren _).follows after.2
  have hbody := readsAll_cons rfl (hinner.reference hfollows) hafter
  have hbefore : library.ReadsAll 0 "primary" (space :: _) (before.1 ++ _) rest _ :=
    readsAll_cons rfl (reads_space before.2 (by simpa using inner.startsFilled _)) hbody
  have hopen : library.ReadsAll 0 "primary" (.literal "(" :: _) (['('] ++ _) rest _ :=
    readsAll_cons rfl reads_literal hbefore
  refine Library.reads_extended
    (Library.reads_seq (forall_mem_some (Member.isLocal_capture "additive")) hopen ?_)
  rintro m _ hm ⟨m₁, _, rfl, h₁, m₂, _, rfl, h₂, m₃, _, rfl, h₃, -⟩
  have hthird : m₃.hasName "additive" = true := h₃.hasName
  have hfound : m.children.find? (·.hasName "additive") = some m₃ := by
    simp [hm.children, h₁.hasName "additive", h₂.hasName "additive", hthird]
  rw [hm.value, Option.elim_some, Member.capture_of_find? hfound, h₃.value]

theorem Tree.isRead_parens {inner : Tree (.chain .additive)} (hinner : inner.IsRead)
    (before after : Blanks) : (parens before inner after).IsRead := by
  intro rest hrest
  have hnumber : library.RefusesNamed 0 "number" ((parens before inner after).yield ++ rest) := by
    apply refuses_number
    rintro c ⟨⟩
    rfl
  apply readsNamed_of_reads defines_primary (rfl : _ = Extension.ofValue? none)
  refine Library.reads_choice forall_mem_none (Library.readsFirst_next (Library.refuses_ref hnumber)
    (Library.readsFirst_found rfl (reads_parenthesized hinner before after rest))) ?_
  intro m option hwraps hvalue
  exact Category.values_of_wraps hwraps (hwraps.value.trans hvalue)

/-! ### Unary expressions -/

theorem Tree.isRead_primary {t : Tree .primary} (ht : t.IsRead) : (primary t).IsRead := by
  intro rest hrest
  -- the first option is a negation, and no primary expression begins like one
  have hminus : library.Refuses 0 "unary" negation (t.yield ++ rest) := by
    obtain ⟨c, front, hyield, hc⟩ := t.exists_yield_primary
    rw [hyield]
    refine Library.refuses_extended (Library.refuses_seq (Library.refusesAll_head
      (refuses_literal (rfl : "-".toList = ['-']) ?_)))
    rw [List.cons_append, List.head?_cons, ne_eq, Option.some.injEq]
    rintro rfl
    rcases hc with hc | hc <;> cases hc
  apply readsNamed_of_reads defines_unary (rfl : _ = Extension.ofValue? none)
  refine Library.reads_choice forall_mem_none (Library.readsFirst_next hminus
    (Library.readsFirst_found rfl (ht.reference ⟨hrest.ends, hrest.stops⟩))) ?_
  intro m option hwraps hvalue
  exact Category.values_of_wraps hwraps (hwraps.value.trans hvalue.value)

theorem reads_negation {operand : Tree .unary} (hoperand : operand.IsRead) (before : Blanks)
    {rest : List Char} (hrest : Follows .unary rest) :
    library.Reads 0 "unary" negation none (some negate) (Tree.negate before operand).yield rest
      fun m => m.value = (Tree.negate before operand).value := by
  have hbody : library.ReadsAll 0 "unary" [.ref "unary"] operand.yield rest _ :=
    readsAll_last rfl (hoperand.reference hrest)
  have hbefore : library.ReadsAll 0 "unary" (space :: _) (before.1 ++ _) rest _ :=
    readsAll_cons rfl (reads_space before.2 (operand.startsFilled rest)) hbody
  have hminus : library.ReadsAll 0 "unary" (.literal "-" :: _) (['-'] ++ _) rest _ :=
    readsAll_cons rfl reads_literal hbefore
  refine Library.reads_extended (Library.reads_seq (forall_mem_some isLocal_negate) hminus ?_)
  rintro m _ hm ⟨m₁, _, rfl, h₁, m₂, _, rfl, h₂, m₃, rfl, h₃⟩
  have hthird : m₃.hasName "unary" = true := h₃.hasName
  have hfound : m.children.find? (·.hasName "unary") = some m₃ := by
    simp [hm.children, h₁.hasName "unary", h₂.hasName "unary", hthird]
  rw [hm.value, Option.elim_some, negate, Member.capture_of_find? hfound, h₃.value, Tree.value]

theorem Tree.isRead_negate {operand : Tree .unary} (hoperand : operand.IsRead) (before : Blanks) :
    (negate before operand).IsRead := by
  intro rest hrest
  apply readsNamed_of_reads defines_unary (rfl : _ = Extension.ofValue? none)
  refine Library.reads_choice forall_mem_none
    (Library.readsFirst_found rfl (reads_negation hoperand before hrest)) ?_
  intro m option hwraps hvalue
  exact Category.values_of_wraps hwraps (hwraps.value.trans hvalue)

/-! ### Chains -/

theorem reads_operation {level : Level} {op : Operator} (hop : op ∈ level.operators)
    (before after : Blanks) {operand : Tree level.operand} (hoperand : operand.IsRead)
    {rest : List Char} (hrest : Follows level.operand rest) :
    library.Reads 0 level.rule level.operation none none
      (before.1 ++ (op.symbol :: (after.1 ++ operand.yield))) rest
      fun m => ∀ n, continueWith n m = n.apply op (.ofValue operand.value) := by
  have hbody : library.ReadsAll 0 level.rule [.label _ "operand"] _ rest _ :=
    readsAll_last rfl (hoperand.labelled hrest)
  have hafter : library.ReadsAll 0 level.rule (space :: _) (after.1 ++ _) rest _ :=
    readsAll_cons rfl (reads_space after.2 (operand.startsFilled rest)) hbody
  have hoperator : library.ReadsAll 0 level.rule (.label _ "op" :: _) ([op.symbol] ++ _) rest _ :=
    readsAll_cons rfl (reads_labelled (reads_operator hop _)) hafter
  have hbefore : library.ReadsAll 0 level.rule (space :: _) (before.1 ++ _) rest _ :=
    readsAll_cons rfl (reads_space before.2 (startsFilled_cons_iff.2 (closes_operator hop).blank))
      hoperator
  refine Library.reads_seq forall_mem_none hbefore ?_
  rintro m _ hm ⟨m₁, _, rfl, h₁, m₂, _, rfl, ⟨target, htarget, h₂⟩, m₃, _, rfl, h₃, m₄, rfl, h₄⟩ n
  -- the operator is no operand, although it is a match with names too
  have hsecond : m₂.hasName "op" = true := (h₂.hasName "op").2 (.inl List.mem_cons_self)
  have hno : m₂.hasName "operand" = false := by
    rw [← Bool.not_eq_true, h₂.hasName, htarget.hasName]
    decide
  have hop : m.capture "op" = some m₂ := by
    apply Match.capture_of_find?
    simp [hm.children, h₁.hasName "op", hsecond]
  have hoperand : m.capture "operand" = some m₄ := by
    apply Match.capture_of_find?
    simp [hm.children, h₁.hasName "operand", hno, h₃.hasName "operand", h₄.1]
  rw [continueWith, hop, hoperand]
  simp only [h₂.text, htarget.operator, h₄.2]

theorem Follows.refuses_operation {level : Level} {rest : List Char}
    (h : Follows (.chain level) rest) : library.Refuses 0 level.rule level.operation rest := by
  obtain ⟨u, back, rfl, hu, hback⟩ := exists_blanks rest
  have hoperator : library.RefusesNamed 0 level.operatorRule back := by
    apply refuses_operator
    intro op hop hhead
    obtain ⟨text, rfl⟩ : ∃ text, back = op.symbol :: text := List.head?_eq_some_iff.1 hhead
    exact h.ne_operation hop hu rfl
  exact Library.refuses_seq (Library.refusesAll_tail rfl (reads_space hu hback)
    (Library.refusesAll_head (Library.refuses_label (Library.refuses_ref hoperator))))

theorem Tail.isRead_nil (level : Level) : (nil level).IsRead := fun _ count hrest =>
  Library.readsRounds_stop (by simp) (Nat.zero_le count) hrest.refuses_operation fun _ => rfl

theorem Tail.isRead_cons {level : Level} {operand : Tree level.operand} {tail : Tail level}
    (hoperand : operand.IsRead) (htail : tail.IsRead) (before : Blanks)
    (op : { op : Operator // op ∈ level.operators }) (after : Blanks) :
    (cons level before op after operand tail).IsRead := by
  intro rest count hrest
  have hyield : (cons level before op after operand tail).yield =
      (before.1 ++ (op.1.symbol :: (after.1 ++ operand.yield))) ++ tail.yield := by
    simp [yield]
  have hround := reads_operation op.2 before after hoperand (tail.follows hrest)
  rw [hyield]
  refine Library.readsRounds_more (by simp) rfl (by simp) hround (htail rest (count + 1) hrest) ?_
  intro m ms hm hms n
  rw [List.foldl_cons, hm, hms, fold]

theorem Tree.isRead_chain {level : Level} {head : Tree level.operand} {tail : Tail level}
    (hhead : head.IsRead) (htail : tail.IsRead) : (chain level head tail).IsRead := by
  intro rest hrest
  have hoperations : library.ReadsAll 0 level.rule [.zeroOrMore level.operation] tail.yield rest _ :=
    readsAll_last rfl (Library.reads_rep forall_mem_none (htail rest 0 hrest)
      fun m ms hm hms n => (congrArg (List.foldl continueWith n) hm.children).trans (hms n))
  have hall : library.ReadsAll 0 level.rule (.label _ "head" :: _) (head.yield ++ _) rest _ :=
    readsAll_cons rfl (hhead.labelled (tail.follows hrest)) hoperations
  apply readsNamed_of_reads (defines_chain level) (rfl : _ = Extension.ofValue? (some Arithmetic.chain))
  refine Library.reads_extended (Library.reads_seq (forall_mem_some isLocal_chain) hall ?_)
  rintro m _ hm ⟨m₁, _, rfl, ⟨-, h₁⟩, m₂, rfl, h₂⟩
  refine ⟨(hm.hasName _).2 List.mem_cons_self, ?_⟩
  rw [hm.value, Option.elim_some, Arithmetic.chain, hm.children]
  simp only [h₁, h₂, value]

theorem Tree.isRead {c : Category} (t : Tree c) : t.IsRead :=
  @Tree.rec (fun _ t => t.IsRead) (fun _ t => t.IsRead)
    isRead_number
    (fun before _ after ih => isRead_parens ih before after)
    (fun _ ih => isRead_primary ih)
    (fun before _ ih => isRead_negate ih before)
    (fun _ _ _ ihhead ihtail => isRead_chain ihhead ihtail)
    Tail.isRead_nil
    (fun _ before op after _ _ ihoperand ihtail =>
      Tail.isRead_cons ihoperand ihtail before op after)
    c t

theorem Expression.isRead (t : Expression) :
    library.ReadsNamed 0 "expression" t.yield [] fun m => m.value = t.value := by
  have hafter : library.ReadsAll 0 "expression" [space] t.after.1 [] _ :=
    readsAll_last rfl (reads_space t.after.2 startsFilled_nil)
  have hfollows : Follows (.chain .additive) (t.after.1 ++ []) := by
    rw [List.append_nil]
    exact follows_blanks _ t.after.2
  have hbody := readsAll_cons rfl (t.body.isRead.reference hfollows) hafter
  have hbefore : library.ReadsAll 0 "expression" (space :: _) (t.before.1 ++ _) [] _ :=
    readsAll_cons rfl (reads_space t.before.2 (by simpa using t.body.startsFilled _)) hbody
  apply readsNamed_of_reads (defines 0 rfl)
    (rfl : _ = Extension.ofValue? (some (Member.capture "additive")))
  refine Library.reads_extended
    (Library.reads_seq (forall_mem_some (Member.isLocal_capture "additive")) hbefore ?_)
  rintro m _ hm ⟨m₁, _, rfl, h₁, m₂, _, rfl, h₂, -⟩
  have hsecond : m₂.hasName "additive" = true := h₂.hasName
  have hfound : m.children.find? (·.hasName "additive") = some m₂ := by
    simp [hm.children, h₁.hasName "additive", hsecond]
  rw [hm.value, Option.elim_some, Member.capture_of_find? hfound, h₂.value, value]

/-! ## Deriving trees -/

/-- The texts that the rule of a name may take up. -/
def language : String → List Char → Prop
  | "expression", u => ∃ t : Expression, t.yield = u
  | "additive", u => ∃ t : Tree (.chain .additive), t.yield = u
  | "multitive", u => ∃ t : Tree (.chain .multitive), t.yield = u
  | "unary", u => ∃ t : Tree .unary, t.yield = u
  | "primary", u => ∃ t : Tree .primary, t.yield = u
  | "number", u => IsNumeral u
  | "additive_op", u => ∃ op ∈ Level.additive.operators, u = [op.symbol]
  | "multitive_op", u => ∃ op ∈ Level.multitive.operators, u = [op.symbol]
  | _, _ => False

theorem language_rule (c : Category) (u : List Char) :
    language c.rule u ↔ ∃ t : Tree c, t.yield = u := by
  cases c with
  | primary => rfl
  | unary => rfl
  | chain level => cases level <;> rfl

theorem language_operatorRule (level : Level) (u : List Char) :
    language level.operatorRule u ↔ ∃ op ∈ level.operators, u = [op.symbol] := by
  cases level <;> rfl

theorem exists_tail {level : Level} {us : List (List Char)}
    (h : ∀ u ∈ us, level.operation.Generates language u) : ∃ t : Tail level, t.yield = us.flatten := by
  induction us with
  | nil => exact ⟨.nil level, rfl⟩
  | cons u us ih =>
      obtain ⟨hu, hus⟩ := List.forall_mem_cons.1 h
      obtain ⟨tail, htail⟩ := ih hus
      obtain ⟨before, _, rfl, hbefore, sign, _, rfl, hsign, after, _, rfl, hafter, text, _, rfl,
        htext, rfl⟩ := hu
      obtain ⟨op, hop, rfl⟩ := (language_operatorRule level sign).1 hsign
      obtain ⟨operand, rfl⟩ := (language_rule level.operand text).1 htext
      refine ⟨.cons level ⟨before, Library.isSpace_of_generates hbefore⟩ ⟨op, hop⟩
        ⟨after, Library.isSpace_of_generates hafter⟩ operand tail, ?_⟩
      simp [Tail.yield, htail]

theorem generates_chain (level : Level) {u : List Char}
    (h : ((Expr.seq [.label (.ref level.operand.rule) "head",
      .zeroOrMore level.operation]).value chain).Generates language u) : language level.rule u := by
  obtain ⟨head, _, rfl, hhead, _, _, rfl, ⟨us, rfl, hus, -, -⟩, rfl⟩ := h
  obtain ⟨t, rfl⟩ := (language_rule level.operand head).1 hhead
  obtain ⟨tail, htail⟩ := exists_tail hus
  refine (language_rule (.chain level) _).2 ⟨.chain level t tail, ?_⟩
  rw [Tree.yield, htail, List.append_nil]

theorem generates_unary {u : List Char}
    (h : (Expr.choice [negation, .ref "primary"]).Generates language u) : language "unary" u := by
  obtain ⟨_, _, rfl, hminus, before, _, rfl, hbefore, text, _, rfl, htext, rfl⟩ | ⟨t, rfl⟩ | h := h
  · obtain ⟨operand, rfl⟩ := (language_rule .unary text).1 htext
    refine ⟨.negate ⟨before, Library.isSpace_of_generates hbefore⟩ operand, ?_⟩
    rw [Library.eq_of_generates_literal hminus, Tree.yield, List.append_nil]
    rfl
  · exact ⟨.primary t, rfl⟩
  · cases h

theorem generates_primary {u : List Char}
    (h : (Expr.choice [.ref "number", parenthesized]).Generates language u) :
    language "primary" u := by
  obtain h | ⟨_, _, rfl, hopen, before, _, rfl, hbefore, text, _, rfl, htext, after, _, rfl, hafter,
    _, _, rfl, hclose, rfl⟩ | h := h
  · exact ⟨.number ⟨u, h⟩, rfl⟩
  · obtain ⟨inner, rfl⟩ := (language_rule (.chain .additive) text).1 htext
    refine ⟨.parens ⟨before, Library.isSpace_of_generates hbefore⟩ inner
      ⟨after, Library.isSpace_of_generates hafter⟩, ?_⟩
    rw [Library.eq_of_generates_literal hopen, Library.eq_of_generates_literal hclose, Tree.yield]
    rfl
  · cases h

theorem language_of_generates : ∀ definition ∈ draft.definitions, ∀ u,
    definition.2.Generates language u → language definition.1 u := by
  simp only [draft, List.forall_mem_cons]
  refine ⟨fun u h => ?_, fun u h => generates_chain .additive h,
    fun u h => generates_chain .multitive h, fun u h => generates_unary h,
    fun u h => generates_primary h, fun u h => ?_,
    fun u h => exists_of_generates_symbols Level.additive.operators h,
    fun u h => exists_of_generates_symbols Level.multitive.operators h, List.forall_mem_nil _⟩
  · obtain ⟨before, _, rfl, hbefore, text, _, rfl, ⟨body, rfl⟩, after, _, rfl, hafter, rfl⟩ := h
    refine ⟨⟨⟨before, Library.isSpace_of_generates hbefore⟩, body,
      ⟨after, Library.isSpace_of_generates hafter⟩⟩, ?_⟩
    rw [Expression.yield, List.append_nil]
  · obtain ⟨p, rest, hp, hend⟩ := h
    rw [automaton_number hp] at hend
    exact isNumeral_of_findEnd hend

/-! ## Nesting of executions -/

/-- How deep executions nest for a name, by the nesting of the text that is left or of its first
operand. -/
def height : String → List Char → Nat
  | "expression", t => 17 + 15 * nesting t
  | "additive", t => 15 + 15 * nesting t
  | "multitive", t => 10 + 15 * nesting t
  | "unary", t => 5 + 15 * operandNesting t
  | "primary", t => 3 + 15 * operandNesting t
  | "number", _ => 1
  | _, _ => 2

section Heights

variable (level : Level) {s t : List Char}

theorem height_operand_le (t : List Char) :
    height level.operand.rule t + 5 ≤ height level.rule t ∧ 10 ≤ height level.rule t := by
  have hoperand := operandNesting_le t
  cases level <;> simp only [height, Level.operand, Category.rule, Level.rule] <;> omega

theorem height_operator (t : List Char) : height level.operatorRule t = 2 := by
  cases level <;> rfl

theorem height_mono (h : nesting s ≤ nesting t) : height level.rule s ≤ height level.rule t := by
  cases level <;> simp only [height, Level.rule] <;> omega

theorem nests_operation {text : List Char} {h : Nat} (hh : 6 < h)
    (hoperand : ∀ (before : List Char) (op : Operator) (after rest : List Char), IsSpace before →
      IsSpace after → text = before ++ (op.symbol :: (after ++ rest)) →
      height level.operand.rule rest + 2 < h) :
    level.operation.Nests language height text h := by
  refine ⟨h - 1, by omega, Library.nestsAll_space (by omega) ?_⟩
  rintro before _ rfl hbefore
  refine ⟨⟨h - 2, by omega, ?_⟩, ?_⟩
  · rw [Expr.Nests, height_operator]
    omega
  rintro sign _ rfl hsign
  obtain ⟨op, -, rfl⟩ := (language_operatorRule level sign).1 hsign
  refine Library.nestsAll_space (by omega) ?_
  rintro after rest rfl hafter
  refine Library.nestsAll_last ⟨h - 2, by omega, ?_⟩
  have hbound := hoperand before op after rest hbefore hafter rfl
  rw [Expr.Nests]
  omega

theorem nests_chain (t : List Char) :
    ((Expr.seq [.label (.ref level.operand.rule) "head", .zeroOrMore level.operation]).value
      chain).Nests language height t (height level.rule t) := by
  obtain ⟨hhead, hpos⟩ := height_operand_le level t
  refine ⟨height level.rule t - 1, by omega, ⟨height level.rule t - 2, by omega, ?_⟩, ?_⟩
  · rw [Expr.Nests]
    omega
  rintro u rest rfl hu
  obtain ⟨head, rfl⟩ := (language_rule level.operand u).1 hu
  refine Library.nestsAll_last ⟨height level.rule (head.yield ++ rest) - 2, by omega, ?_⟩
  rintro us rest' rfl hus
  obtain ⟨tail, htail⟩ := exists_tail hus
  refine nests_operation level (by omega) ?_
  rintro before op after back hbefore hafter rfl
  have hless : nesting back ≤ nesting ((Tree.chain level head tail).yield ++
      (before ++ (op.symbol :: (after ++ back)))) :=
    nesting_operation_le (.chain level head tail) hbefore op hafter
  rw [Tree.yield, htail, List.append_assoc] at hless
  have hlevel := height_mono level hless
  have hback := (height_operand_le level back).1
  omega

end Heights

theorem nests_of_language : ∀ definition ∈ draft.definitions, ∀ t,
    definition.2.Nests language height t (height definition.1 t) := by
  simp only [draft, List.forall_mem_cons]
  refine ⟨fun t => ?_, nests_chain .additive, nests_chain .multitive, fun t => ?_, fun t => ?_,
    fun t => Nat.one_pos, fun t => ⟨1, Nat.one_lt_two, Nat.one_pos, Nat.one_pos, trivial⟩,
    fun t => ⟨1, Nat.one_lt_two, Nat.one_pos, Nat.one_pos, Nat.one_pos, trivial⟩, List.forall_mem_nil _⟩
  · refine ⟨16 + 15 * nesting t, by simp [height], Library.nestsAll_space (by omega) ?_⟩
    rintro before rest rfl hbefore
    refine ⟨?_, fun _ _ _ _ => Library.nestsAll_last (Nat.lt_of_lt_of_le Nat.one_pos (by omega))⟩
    simp only [Expr.Nests, height, nesting, scan_space hbefore]
    omega
  · refine ⟨4 + 15 * operandNesting t, by simp [height], ⟨3 + 15 * operandNesting t, by omega, ?_⟩,
      ?_, trivial⟩
    · refine Library.nestsAll_literal (by omega) ?_
      rintro _ rfl
      refine Library.nestsAll_space (by omega) ?_
      rintro before rest rfl hbefore
      have hminus : operandNesting ("-".toList ++ (before ++ rest)) = operandNesting rest + 1 :=
        operandNesting_minus hbefore
      refine Library.nestsAll_last ?_
      simp only [Expr.Nests, height, hminus]
      omega
    · simp [Expr.Nests, height]
  · refine ⟨2 + 15 * operandNesting t, by simp [height], ?_, ⟨1 + 15 * operandNesting t, by omega, ?_⟩,
      trivial⟩
    · have hnumber : height "number" t = 1 := rfl
      rw [Expr.Nests, hnumber]
      omega
    · refine Library.nestsAll_literal (by omega) ?_
      rintro _ rfl
      refine Library.nestsAll_space (by omega) ?_
      rintro before rest rfl hbefore
      have hparen : operandNesting ("(".toList ++ (before ++ rest)) = nesting rest + 1 :=
        operandNesting_paren hbefore
      refine ⟨?_, ?_⟩
      · simp only [Expr.Nests, height, hparen]
        omega
      · rintro _ _ _ -
        refine Library.nestsAll_space (by omega) fun _ _ _ _ => ?_
        exact Library.nestsAll_last (Nat.lt_of_lt_of_le Nat.one_pos (by omega))

/-! ## Evaluation -/

theorem evaluate_eq (text : String) :
    evaluate text = (library.parse 0 text {}).map Match.value := by
  rw [evaluate, evaluateLogged, Parsed.map_result, Library.parse]

theorem evaluate_eq_ok_iff (text : String) :
    (∃ error, evaluate text = .error error ∧ error.kind = .depthLimit) ∨
      ∀ v, evaluate text = .ok v ↔ ∃ t : Expression, t.yield = text.toList ∧ t.value = v := by
  let means (u : List Char) (v : Value) : Prop := ∃ t : Expression, t.yield = u ∧ t.value = v
  have hreads (u : List Char) (v : Value) (h : means u v) :
      library.ReadsNamed 0 "expression" u [] fun m => m.value = v := by
    obtain ⟨t, rfl, rfl⟩ := h
    exact t.isRead
  have hderives (r : RuleRef) (p : Place) (d : Derivation)
      (hr : library.lookup 0 "expression" = some r) (h : library.Derives r p d) :
      Library.TakesUp (fun u => ∃ v, means u v) p d := by
    obtain ⟨u, rest, hrest, hlength, t, ht⟩ :=
      h.takesUp_of_single rfl added language_of_generates hr
    exact ⟨u, rest, hrest, hlength, t.value, t, ht, rfl⟩
  rw [evaluate_eq]
  exact Library.parse_value_of_single rfl added rfl rfl hreads hderives text

theorem lt_nesting_of_depthLimit {text : String} {error : ParseError}
    (h : evaluate text = .error error) (hkind : error.kind = .depthLimit) :
    33 < nesting text.toList := by
  rw [evaluate_eq] at h
  have hdepth := Library.maxDepth_lt_of_single rfl added rfl rfl language_of_generates nests_of_language
    h hkind
  simp only [height, defaultMaxDepth] at hdepth
  omega

/-- Unless a text is nested too deep, it is evaluated if and only if a syntax tree spells it out, and to
the value of this tree. There is one such tree at most. A number literal that reads as an integer of
64 bits has this value, any other is a floating-point number. Only a text with more than 33 brackets
and signs around an operand is nested too deep, and in a text that a tree spells out these are as many
as the tree is deep. -/
theorem evaluate_spec :
    Function.Injective Expression.yield ∧
    (∀ text : String,
      (∃ error, evaluate text = .error error ∧ error.kind = .depthLimit) ∨
        ∀ v, evaluate text = .ok v ↔ ∃ t : Expression, t.yield = text.toList ∧ t.value = v) ∧
    (∀ literal : Numeral,
      (∀ n, Member.readInt64? (String.ofList literal.1) = some n →
        Arithmetic.literal literal.1 = .int n) ∧
      (Member.readInt64? (String.ofList literal.1) = none →
        ∃ x, Arithmetic.literal literal.1 = .float x)) ∧
    (∀ text error, evaluate text = .error error → error.kind = .depthLimit →
      33 < nesting text.toList) ∧
    ∀ t : Expression, nesting t.yield = t.body.depth :=
  ⟨Expression.yield_injective, evaluate_eq_ok_iff, fun literal => literal_spec literal.2,
    fun _ _ => lt_nesting_of_depthLimit, Expression.nesting_yield⟩

end Peg.Arithmetic
