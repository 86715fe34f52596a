import Peg.Proofs.Regex.Token
import Peg.Proofs.Semantics.Depth

/-!
# Blanks, literals and references

What the expressions read and generate that the rules of text formats are mostly made of: optional
white space, literals without a name, and references with a label or without one. A sequence that
begins with white space or a literal nests as deep as what is behind it.
-/

namespace Peg

namespace Library

variable {lib : Library} {g : Nat} {owner : String} {literal other label : String}
  {u rest text : List Char} {inner : Match → Prop}

theorem forall_mem_none {P : Member → Prop} : ∀ f ∈ (none : Option Member), P f :=
  fun _ h => by cases h

theorem forall_mem_some {P : Member → Prop} {f : Member} (h : P f) : ∀ f' ∈ some f, P f' := by
  rintro _ ⟨⟩
  exact h

theorem reads_space (hu : IsSpace u) (hrest : StartsFilled rest) :
    lib.Reads g owner (.pattern "[ \\t\\r\\n]*") none none u rest Match.IsBare := by
  apply reads_pattern forall_mem_none _ fun m hm => hm.isBare
  intro p hp
  rw [automaton_space hp]
  exact findEnd_space hu hrest

theorem reads_literal :
    lib.Reads g owner (.literal literal) none none literal.toList rest Match.IsBare :=
  reads_text forall_mem_none fun _ hm => hm.isBare

theorem refuses_literal {c : Char} {cs : List Char} (hliteral : literal.toList = c :: cs)
    (htext : text.head? ≠ some c) : lib.Refuses g owner (.literal literal) text := by
  apply refuses_text
  rw [hliteral]
  cases text with
  | nil => rfl
  | cons d ds =>
      rw [List.head?_cons, ne_eq, Option.some.injEq] at htext
      exact literalAt_cons_eq_none (Ne.symm htext) cs ds

theorem reads_reference (h : lib.ReadsNamed g other u rest inner) :
    lib.Reads g owner (.ref other) none none u rest fun m => ∃ m', inner m' ∧ m.Wraps m' [] none :=
  reads_ref forall_mem_none h fun _ m' hwraps hm' => ⟨m', hm', hwraps⟩

theorem reads_labelled (h : lib.ReadsNamed g other u rest inner) :
    lib.Reads g owner (.label (.ref other) label) none none u rest
      fun m => ∃ m', inner m' ∧ m.Wraps m' [label] none := by
  refine reads_label forall_mem_none rfl (reads_reference h) ?_
  rintro m m₁ hlabel ⟨m', hm', href⟩
  refine ⟨m', hm', fun name => ?_, hlabel.text.trans href.text, hlabel.children.trans href.children,
    hlabel.value.trans href.value⟩
  rw [hlabel.hasName, href.hasName]
  simp

theorem isSpace_of_generates {L : String → List Char → Prop}
    (h : (Expr.pattern "[ \\t\\r\\n]*").Generates L u) : IsSpace u := by
  obtain ⟨p, rest, hp, hend⟩ := h
  rw [automaton_space hp] at hend
  exact isSpace_of_findEnd hend

theorem eq_of_generates_literal {L : String → List Char → Prop}
    (h : (Expr.literal literal).Generates L u) : u = literal.toList :=
  literalAt_eq_iff.1 h

section Nesting

variable {L : String → List Char → Prop} {H : String → List Char → Nat} {es : List Expr}
  {t : List Char} {n : Nat}

theorem nestsAll_space (hn : 0 < n)
    (h : ∀ u rest, t = u ++ rest → IsSpace u → Expr.NestsAll L H es rest n) :
    Expr.NestsAll L H (.pattern "[ \\t\\r\\n]*" :: es) t n :=
  ⟨hn, fun u rest ht hu => h u rest ht (isSpace_of_generates hu)⟩

theorem nestsAll_literal (hn : 0 < n)
    (h : ∀ rest, t = literal.toList ++ rest → Expr.NestsAll L H es rest n) :
    Expr.NestsAll L H (.literal literal :: es) t n :=
  ⟨hn, fun _ rest ht hu => h rest (eq_of_generates_literal hu ▸ ht)⟩

theorem nestsAll_last {e : Expr} (h : e.Nests L H t n) : Expr.NestsAll L H [e] t n :=
  ⟨h, fun _ _ _ _ => trivial⟩

end Nesting

end Library

end Peg
