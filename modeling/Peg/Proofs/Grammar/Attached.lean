import Peg.Proofs.Grammar.Replacement

/-!
# Extensions around expressions

The extensions around an expression end up at the rule of what is inside them, merged from the inside
out. It makes no difference whether they were merged when they were attached or are merged when the
expression is lowered. Main statements: `Expr.attached_getD`, `Expr.lower_foldl_extend` and
`Expr.lower_settled`.
-/

namespace Peg

namespace Expr

/-- The expression inside all extensions around it. -/
def bare : Expr → Expr
  | extended body _ => body.bare
  | e => e

/-- The extensions around the expression, the innermost first. -/
def layers : Expr → List Extension
  | extended body extension => body.layers ++ [extension]
  | _ => []

variable {e : Expr} {x : Extension}

theorem isNode_bare (e : Expr) : e.bare.IsNode := by
  induction e using induct with
  | node e he _ =>
      cases e with
      | extended body extension => exact absurd rfl (he body extension)
      | _ => exact nofun
  | extended body extension ih => exact ih

theorem bare_of_isNode (he : e.IsNode) : e.bare = e := by
  cases e with
  | extended body extension => exact absurd rfl (he body extension)
  | _ => rfl

theorem layers_of_isNode (he : e.IsNode) : e.layers = [] := by
  cases e with
  | extended body extension => exact absurd rfl (he body extension)
  | _ => rfl

theorem attached_of_isNode (he : e.IsNode) : e.attached = none := by
  cases e with
  | extended body extension => exact absurd rfl (he body extension)
  | _ => rfl

theorem bare_mem_subexpressions (e : Expr) : e.bare ∈ e.subexpressions := by
  induction e using induct with
  | node e he _ =>
      rw [bare_of_isNode he]
      exact e.self_mem_subexpressions
  | extended body extension ih => exact List.mem_cons_of_mem _ ih

/-- The extension that a rule gets is made of those around its expression, the outer ones merged into
the inner ones. -/
theorem attached_getD (e : Expr) : e.attached.getD {} = Extension.mergeAll e.layers := by
  induction e using induct with
  | node e he _ =>
      rw [attached_of_isNode he, layers_of_isNode he]
      rfl
  | extended body extension ih =>
      rw [layers, Extension.mergeAll_concat, ← ih, attached, Option.getD_some]
      cases body.attached with
      | none => exact Extension.empty_merge.symm
      | some inner => rfl

/-! ## Lowering -/

end Expr

theorem Rule.extend_extend {τ : Type} (rule : Rule τ) (inner outer : Extension) :
    (rule.extend inner).extend outer = rule.extend (inner.merge outer) := by
  obtain ⟨kind, name, label, extension⟩ := rule
  cases extension with
  | none => rfl
  | some own => simp [extend, Extension.merge_assoc]

namespace Expr

variable {e e' : Expr} {grammar rule : String} {arena : Arena}

theorem lower_extend (e : Expr) (x : Extension) :
    (e.extend x).lower grammar rule arena = (extended e x).lower grammar rule arena := by
  cases e with
  | extended body inner =>
      simp only [extend, lower]
      cases body.lower grammar rule arena with
      | error error => rfl
      | ok lowered =>
          obtain ⟨later, id⟩ := lowered
          have hmodify : later.modify id (·.extend (inner.merge x)) =
              (later.modify id (·.extend inner)).modify id (·.extend x) := by
            ext i hi hi'
            · simp
            · simp only [Array.getElem_modify]
              split <;> simp [Rule.extend_extend]
          exact congrArg (fun arena => Except.ok (arena, id)) hmodify
  | _ => rfl

theorem lower_extended_congr (h : ∀ arena, e.lower grammar rule arena = e'.lower grammar rule arena)
    (x : Extension) (arena : Arena) :
    (extended e x).lower grammar rule arena = (extended e' x).lower grammar rule arena := by
  rw [lower, lower, h]

/-- Attaching extensions one after the other comes to the same as nesting them, however many of them
are there already. -/
theorem lower_foldl_extend (xs : List Extension)
    (h : ∀ arena, e.lower grammar rule arena = e'.lower grammar rule arena) (arena : Arena) :
    (xs.foldl extend e).lower grammar rule arena = (xs.foldl extended e').lower grammar rule arena := by
  induction xs generalizing e e' with
  | nil => exact h arena
  | cons x xs ih => exact ih (fun arena => by rw [lower_extend, lower_extended_congr h])

theorem lowerAll_map {f : Expr → Expr} {es : List Expr}
    (h : ∀ e ∈ es, ∀ arena, (f e).lower grammar rule arena = e.lower grammar rule arena)
    (arena : Arena) :
    Expr.lowerAll grammar rule arena (es.map f) = Expr.lowerAll grammar rule arena es := by
  induction es generalizing arena with
  | nil => rfl
  | cons e es ih =>
      obtain ⟨he, hes⟩ := List.forall_mem_cons.1 h
      simp only [List.map_cons, lowerAll, he, ih hes]

/-- Nested extensions, anywhere in an expression, are lowered as if they had been merged. -/
theorem lower_settled (e : Expr) (arena : Arena) :
    (e.settled rule).lower grammar rule arena = e.lower grammar rule arena := by
  induction e using induct generalizing arena with
  | node e he ih =>
      have hparts : ∀ part ∈ e.parts, ∀ arena,
          (part.settled rule).lower grammar rule arena = part.lower grammar rule arena :=
        fun part hpart => ih part hpart
      cases e with
      | text | pattern | range | any | endOfInput | ref => rfl
      | inherited name => rw [settled, lower, lower, Option.getD_some]
      | seq es | choice es =>
          have hall := lowerAll_map hparts arena
          simp only [parts] at hall
          simp only [settled, lower, settledAll_eq_map, List.isEmpty_map, hall]
      | rep | ahead | notAhead | upTo | label =>
          simp only [settled, lower, hparts _ List.mem_cons_self]
      | extended body extension => exact absurd rfl (he body extension)
  | extended body extension ih =>
      rw [settled, lower_extend]
      exact lower_extended_congr ih extension arena

end Expr

end Peg
