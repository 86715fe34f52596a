import Peg.Grammar.Lowering

/-!
# Lowering node by node

An expression that is no extension is lowered by lowering its parts and adding one rule for the node
itself, which `Expr.top?` tells from the numbers of the parts. An extension is lowered as what it
extends and changes the rule at the top. Main statements: the
equivalences `Expr.lower_node_iff`, `Expr.lower_extended_iff` and `lowerDefinitions_cons_iff`, and the
induction principle `Expr.induct`.
-/

namespace Peg

def Kind.children {τ : Type} : Kind τ → List Nat
  | terminal _ | text _ _ | ref _ _ | inherited _ _ => []
  | sequence parts => parts
  | choice options => options
  | rep body _ _ => [body]
  | ahead body => [body]
  | notAhead body => [body]
  | upTo stop => [stop]
  | label body => [body]

theorem exists_of_bind_eq_ok {ε α β : Type} {x : Except ε α} {f : α → Except ε β} {b : β}
    (h : x >>= f = .ok b) : ∃ a, x = .ok a ∧ f a = .ok b := by
  cases x with
  | error e => cases h
  | ok a => exact ⟨a, rfl, h⟩

theorem bind_eq_ok_iff {ε α β : Type} {x : Except ε α} {f : α → Except ε β} {b : β} :
    x >>= f = .ok b ↔ ∃ a, x = .ok a ∧ f a = .ok b := by
  constructor
  · exact exists_of_bind_eq_ok
  · rintro ⟨a, rfl, hb⟩
    exact hb

namespace Expr

def IsNode (e : Expr) : Prop := ∀ body extension, e ≠ extended body extension

def parts : Expr → List Expr
  | seq parts => parts
  | choice options => options
  | rep body _ _ => [body]
  | ahead body => [body]
  | notAhead body => [body]
  | upTo stop => [stop]
  | label body _ => [body]
  | _ => []

theorem sizeOf_lt_of_mem_parts {e part : Expr} (h : part ∈ e.parts) : sizeOf part < sizeOf e := by
  cases e with
  | seq es | choice es =>
      have hlt := List.sizeOf_lt_of_mem h
      simp only [parts, seq.sizeOf_spec, choice.sizeOf_spec] at hlt ⊢
      omega
  | rep body least most =>
      rw [List.mem_singleton.1 h]
      simp only [rep.sizeOf_spec]
      omega
  | ahead | notAhead | upTo =>
      rw [List.mem_singleton.1 h]
      simp
  | label body name =>
      rw [List.mem_singleton.1 h]
      simp only [label.sizeOf_spec]
      omega
  | _ => cases h

/-- What holds of a node if it holds of its parts, and of an extension if it holds of what this
extends, holds of every expression. -/
theorem induct {motive : Expr → Prop}
    (node : ∀ e, e.IsNode → (∀ part ∈ e.parts, motive part) → motive e)
    (extended : ∀ body extension, motive body → motive (extended body extension)) (e : Expr) :
    motive e := by
  cases e with
  | extended body extension => exact extended body extension (induct node extended body)
  | _ => exact node _ (fun _ _ h => by cases h) fun part _ => induct node extended part
termination_by sizeOf e
decreasing_by
  all_goals first
    | exact sizeOf_lt_of_mem_parts ‹_›
    | simp only [Expr.extended.sizeOf_spec]; omega

/-- The rule that a node of the definition `rule` becomes if its parts became the rules of these
numbers, none if there is something wrong with the node. -/
def top? (rule : String) : Expr → List Nat → Option (Rule String)
  | text literal ignoreCase, _ => some (.ofKind (.text literal.toList ignoreCase))
  | pattern source, _ =>
    (Pattern.anchored? source).map fun p => .ofKind (.terminal (.pattern p))
  | range first last, _ =>
    if last < first then none else some (.ofKind (.terminal (.range first last)))
  | any, _ => some (.ofKind (.terminal .any))
  | endOfInput, _ => some (.ofKind (.terminal .endOfInput))
  | seq parts, ids => if parts.isEmpty then none else some (.ofKind (.sequence ids))
  | choice options, ids => if options.isEmpty then none else some (.ofKind (.choice ids))
  | rep _ least most, [id] =>
    if (most.filter fun bound => bound = 0 || bound < least).isSome then none
    else some (.ofKind (.rep id least most))
  | ahead _, [id] => some (.ofKind (.ahead id))
  | notAhead _, [id] => some (.ofKind (.notAhead id))
  | upTo _, [id] => some (.ofKind (.upTo id))
  | ref name, _ => some (.ofKind (.ref name rule))
  | inherited name, _ => some (.ofKind (.inherited (name.getD rule) rule))
  | label _ name, [id] => some { kind := .label id, label := some name }
  | _, _ => none

variable {grammar rule : String} {arena later : Arena} {e : Expr} {es : List Expr} {id : Nat}
  {ids : List Nat} {top : Rule String}

theorem top?_eq_some (h : e.top? rule ids = some top) (hids : ids.length = e.parts.length) :
    top.kind.children = ids ∧ top.name = none ∧ top.extension = none := by
  cases e with
  | text | any | endOfInput | ref | inherited =>
      rw [List.length_eq_zero_iff.1 hids]
      cases h
      exact ⟨rfl, rfl, rfl⟩
  | pattern =>
      rw [List.length_eq_zero_iff.1 hids]
      obtain ⟨p, -, rfl⟩ := Option.map_eq_some_iff.1 h
      exact ⟨rfl, rfl, rfl⟩
  | range =>
      rw [List.length_eq_zero_iff.1 hids]
      simp only [top?, Option.ite_none_left_eq_some, Option.some.injEq] at h
      rw [← h.2]
      exact ⟨rfl, rfl, rfl⟩
  | seq | choice =>
      simp only [top?, Option.ite_none_left_eq_some, Option.some.injEq] at h
      rw [← h.2]
      exact ⟨rfl, rfl, rfl⟩
  | rep =>
      obtain ⟨id, rfl⟩ := List.length_eq_one_iff.1 hids
      simp only [top?, Option.ite_none_left_eq_some, Option.some.injEq] at h
      rw [← h.2]
      exact ⟨rfl, rfl, rfl⟩
  | ahead | notAhead | upTo | label =>
      obtain ⟨id, rfl⟩ := List.length_eq_one_iff.1 hids
      cases h
      exact ⟨rfl, rfl, rfl⟩
  | extended => cases h

theorem lowerAll_cons_iff :
    Expr.lowerAll grammar rule arena (e :: es) = .ok (later, ids) ↔
      ∃ arena' id ids', e.lower grammar rule arena = .ok (arena', id) ∧
        Expr.lowerAll grammar rule arena' es = .ok (later, ids') ∧ ids = id :: ids' := by
  simp only [Expr.lowerAll, bind_eq_ok_iff, Prod.exists, Except.ok.injEq, Prod.mk.injEq]
  constructor
  · rintro ⟨arena', id, he, later', ids', hes, rfl, rfl⟩
    exact ⟨arena', id, ids', he, hes, rfl⟩
  · rintro ⟨arena', id, ids', he, hes, rfl⟩
    exact ⟨arena', id, he, later, ids', hes, rfl, rfl⟩

theorem lowerAll_singleton_iff :
    Expr.lowerAll grammar rule arena [e] = .ok (later, ids) ↔
      ∃ id, e.lower grammar rule arena = .ok (later, id) ∧ ids = [id] := by
  rw [lowerAll_cons_iff]
  constructor
  · rintro ⟨arena', id, ids', he, hnil, rfl⟩
    cases hnil
    exact ⟨id, he, rfl⟩
  · rintro ⟨id, he, rfl⟩
    exact ⟨later, id, [], he, rfl, rfl⟩

theorem length_of_lowerAll (h : Expr.lowerAll grammar rule arena es = .ok (later, ids)) :
    ids.length = es.length := by
  induction es generalizing arena ids with
  | nil =>
      cases h
      rfl
  | cons e es ih =>
      obtain ⟨arena', id, ids', -, hes, rfl⟩ := lowerAll_cons_iff.1 h
      simp [ih hes]

/-- A node is lowered behind its parts. -/
theorem lower_node_iff (he : e.IsNode) :
    e.lower grammar rule arena = .ok (later, id) ↔
      ∃ arena' ids top, Expr.lowerAll grammar rule arena e.parts = .ok (arena', ids) ∧
        e.top? rule ids = some top ∧ arena'.add top = (later, id) := by
  cases e with
  | text | any | endOfInput | ref | inherited =>
      simp [Expr.lower, Expr.lowerAll, parts, top?, Arena.addKind]
  | pattern source =>
      cases hpattern : Pattern.anchored? source <;>
        simp [Expr.lower, Expr.lowerAll, parts, top?, Arena.addKind, hpattern]
  | range first last =>
      by_cases hlt : last < first <;>
        simp [Expr.lower, Expr.lowerAll, parts, top?, Arena.addKind, hlt]
  | seq es | choice es =>
      cases hempty : es.isEmpty <;>
        simp [Expr.lower, parts, top?, bind_eq_ok_iff, Arena.addKind, hempty]
  | rep body least most =>
      have hrule (id' : Nat) : (rep body least most).top? rule [id'] =
          if (most.filter fun bound => bound = 0 || bound < least).isSome then none
          else some (.ofKind (.rep id' least most)) := rfl
      simp only [Expr.lower, parts, lowerAll_singleton_iff]
      cases hbound : most.filter fun bound => bound = 0 || bound < least with
      | some bound =>
          constructor
          · intro h
            cases h
          · rintro ⟨arena', ids, top, ⟨id', -, rfl⟩, htop, -⟩
            rw [hrule, hbound] at htop
            cases htop
      | none =>
          simp only [bind_eq_ok_iff, Prod.exists]
          constructor
          · rintro ⟨arena', id', hbody, hadd⟩
            refine ⟨arena', [id'], .ofKind (.rep id' least most), ⟨id', hbody, rfl⟩, ?_,
              Except.ok.inj hadd⟩
            rw [hrule, hbound]
            rfl
          · rintro ⟨arena', ids, top, ⟨id', hbody, rfl⟩, htop, hadd⟩
            rw [hrule, hbound] at htop
            cases htop
            exact ⟨arena', id', hbody, congrArg Except.ok hadd⟩
  | ahead | notAhead | upTo | label =>
      simp only [Expr.lower, parts, lowerAll_singleton_iff, bind_eq_ok_iff, Prod.exists]
      constructor
      · rintro ⟨arena', id', hbody, hadd⟩
        exact ⟨arena', [id'], _, ⟨id', hbody, rfl⟩, rfl, Except.ok.inj hadd⟩
      · rintro ⟨arena', ids, top, ⟨id', hbody, rfl⟩, htop, hadd⟩
        cases htop
        exact ⟨arena', id', hbody, congrArg Except.ok hadd⟩
  | extended body extension => exact absurd rfl (he body extension)

/-- An extension changes the rule at the top of what it extends. -/
theorem lower_extended_iff {body : Expr} {extension : Extension} :
    (Expr.extended body extension).lower grammar rule arena = .ok (later, id) ↔
      ∃ arena', body.lower grammar rule arena = .ok (arena', id) ∧
        arena'.modify id (·.extend extension) = later := by
  simp only [Expr.lower, bind_eq_ok_iff, Prod.exists, Except.ok.injEq, Prod.mk.injEq]
  constructor
  · rintro ⟨arena', id', hbody, hmodify, rfl⟩
    exact ⟨arena', hbody, hmodify⟩
  · rintro ⟨arena', hbody, hmodify⟩
    exact ⟨arena', id, hbody, hmodify, rfl⟩

end Expr

def Rule.named {τ : Type} (name : String) (rule : Rule τ) : Rule τ := { rule with name := some name }

/-- Definitions are lowered one behind the other, each under a name that is new. -/
theorem lowerDefinitions_cons_iff {grammar name : String} {e : Expr}
    {rest : List (String × Expr)} {arena later : Arena} {defined defined' : List (String × Nat)} :
    lowerDefinitions grammar arena defined ((name, e) :: rest) = .ok (later, defined') ↔
      defined.lookup name = none ∧
        ∃ arena' id, e.lower grammar name arena = .ok (arena', id) ∧
          lowerDefinitions grammar (arena'.modify id (Rule.named name)) (defined ++ [(name, id)])
            rest = .ok (later, defined') := by
  simp only [lowerDefinitions]
  by_cases hnew : defined.lookup name = none
  · simp only [hnew, Option.isSome_none, Bool.false_eq_true, if_false, true_and, bind_eq_ok_iff,
      Prod.exists]
    exact Iff.rfl
  · simp [hnew, Option.isSome_iff_ne_none]

end Peg
