import Peg.Proofs.Grammar.Faults
import Peg.Proofs.Grammar.Resolution

/-!
# Which drafts are accepted

Building a grammar stops at the first fault of its draft and reports it, and without a fault there is
a grammar. Each step of building reports the faults of its own kind, and a step is taken only if the
ones before it had none. Main statement: `Library.build_reports`.
-/

namespace Peg

/-- The result is an error, the first of the faults, or there are none and it is a value for which `P`
holds. -/
inductive Reports {α : Type} (P : α → Prop) :
    List GrammarError → Except GrammarError α → Prop
  | ok {a : α} : P a → Reports P [] (.ok a)
  | error {e : GrammarError} {es : List GrammarError} : Reports P (e :: es) (.error e)

namespace Reports

variable {α β : Type} {P P' : α → Prop} {Q : β → Prop} {faults later : List GrammarError}
  {x : Except GrammarError α}

theorem bind {f : α → Except GrammarError β} (h : Reports P faults x)
    (hf : ∀ a, P a → Reports Q later (f a)) : Reports Q (faults ++ later) (x >>= f) := by
  cases h with
  | ok ha => exact hf _ ha
  | error => exact .error

theorem bind_nil {f : α → Except GrammarError β} (h : Reports P faults x)
    (hf : ∀ a, P a → Reports Q [] (f a)) : Reports Q faults (x >>= f) := by
  have hbind := h.bind hf
  rw [List.append_nil] at hbind
  exact hbind

theorem map {f : α → β} (h : Reports P faults x) (hf : ∀ a, P a → Q (f a)) :
    Reports Q faults (x.map f) := by
  cases h with
  | ok ha => exact .ok (hf _ ha)
  | error => exact .error

theorem mapM {f : α → Except GrammarError β} {faultsOf : α → List GrammarError}
    (hf : ∀ a, Reports (fun _ => True) (faultsOf a) (f a)) (xs : List α) :
    Reports (fun _ => True) (xs.flatMap faultsOf) (xs.mapM f) := by
  induction xs with
  | nil => exact .ok trivial
  | cons a xs ih =>
      rw [List.mapM_cons, List.flatMap_cons]
      exact (hf a).bind fun _ _ => ih.bind_nil fun _ _ => .ok trivial

theorem array_mapM {f : α → Except GrammarError β} {faultsOf : α → List GrammarError}
    (hf : ∀ a, Reports (fun _ => True) (faultsOf a) (f a)) (xs : Array α) :
    Reports (fun _ => True) (xs.toList.flatMap faultsOf) (xs.mapM f) := by
  rw [Array.mapM_eq_mapM_toList]
  exact (mapM hf xs.toList).map fun _ _ => trivial

theorem imp (h : Reports P faults x) (himp : ∀ a, P a → P' a) : Reports P' faults x := by
  cases h with
  | ok ha => exact .ok (himp _ ha)
  | error => exact .error

theorem of_eq_ok {a : α} (h : Reports P faults x) (hx : x = .ok a) : P a := by
  subst hx
  cases h with
  | ok ha => exact ha

theorem exists_ok_iff (h : Reports P faults x) : (∃ a, x = .ok a) ↔ faults = [] := by
  cases h <;> simp

end Reports

/-! ## References of rules -/

def Kind.unresolved (draft : Draft) (lib : Library) : Kind String → List GrammarError
  | .ref name rule => if draft.Resolves lib name then [] else [.undefinedRule draft.name rule name]
  | .inherited name rule =>
    if draft.Inherits lib name then [] else [.undefinedInherited draft.name rule name]
  | _ => []

namespace Arena

def unresolved (draft : Draft) (lib : Library) (arena : Arena) : List GrammarError :=
  arena.toList.flatMap fun rule => rule.kind.unresolved draft lib

variable {draft : Draft} {lib : Library}

theorem unresolved_add (arena : Arena) (rule : Rule String) :
    (arena.add rule).1.unresolved draft lib =
      arena.unresolved draft lib ++ rule.kind.unresolved draft lib := by
  simp [unresolved, add]

theorem unresolved_modify (arena : Arena) (id : Nat) {f : Rule String → Rule String}
    (hf : ∀ rule, (f rule).kind = rule.kind) :
    Arena.unresolved draft lib (Array.modify arena id f) = arena.unresolved draft lib := by
  have hkinds : (Array.modify arena id f).toList.map Rule.kind = arena.toList.map Rule.kind := by
    apply List.ext_getElem?
    intro i
    simp only [List.getElem?_map, Array.getElem?_toList, Array.getElem?_modify]
    split
    · cases arena[i]? <;> simp [hf]
    · rfl
  have hflat (rules : Arena) : rules.unresolved draft lib =
      (rules.toList.map Rule.kind).flatMap (Kind.unresolved draft lib) := by
    rw [List.flatMap_map]
    rfl
  rw [hflat, hflat, hkinds]

end Arena

/-! ## Lowering -/

theorem Expr.filter_bound (least most : Nat) :
    (some most).filter (fun bound => bound = 0 || bound < least) =
      if 1 ≤ most ∧ least ≤ most then none else some most := by
  rw [Option.filter_some]
  by_cases hbounds : 1 ≤ most ∧ least ≤ most
  · rw [if_pos hbounds, if_neg]
    simp only [Bool.or_eq_true, decide_eq_true_eq]
    omega
  · rw [if_neg hbounds, if_pos]
    simp only [Bool.or_eq_true, decide_eq_true_eq]
    omega

section Lower

variable (draft : Draft) (lib : Library) (grammar rule : String)

/-- Behind the arena come rules with these faults of references. -/
def Arena.Adds (arena : Arena) (faults : List GrammarError) (later : Arena) : Prop :=
  later.unresolved draft lib = arena.unresolved draft lib ++ faults

variable {draft lib}

theorem Arena.Adds.add {arena later : Arena} {faults : List GrammarError}
    (h : arena.Adds draft lib faults later) {rule : Rule String}
    (hrule : rule.kind.unresolved draft lib = []) :
    arena.Adds draft lib faults (later.add rule).1 := by
  unfold Adds at h ⊢
  rw [unresolved_add, hrule, List.append_nil, h]

theorem Arena.Adds.modify {arena later : Arena} {faults : List GrammarError}
    (h : arena.Adds draft lib faults later) (id : Nat) {f : Rule String → Rule String}
    (hf : ∀ rule, (f rule).kind = rule.kind) :
    arena.Adds draft lib faults (Array.modify later id f) := by
  unfold Adds at h ⊢
  rw [unresolved_modify later id hf, h]

theorem Arena.Adds.trans {arena arena' later : Arena} {faults faults' : List GrammarError}
    (h : arena.Adds draft lib faults arena') (h' : arena'.Adds draft lib faults' later) :
    arena.Adds draft lib (faults ++ faults') later := by
  unfold Adds at h h' ⊢
  rw [h', h, List.append_assoc]

theorem Arena.adds_leaf (arena : Arena) (rule : Rule String) :
    arena.Adds draft lib (rule.kind.unresolved draft lib) (arena.add rule).1 :=
  unresolved_add arena rule

variable (draft lib)

mutual

/-- Lowering an expression reports what is wrong with it and with those inside it, and otherwise adds
rules with the faults of their references. -/
theorem Expr.lower_reports (arena : Arena) (e : Expr) :
    Reports (fun result : Arena × Nat =>
        arena.Adds draft lib (e.subexpressions.flatMap (Expr.unresolved draft lib rule)) result.1)
      (e.faults grammar rule) (e.lower grammar rule arena) := by
  cases e with
  | text literal ignoreCase | any | endOfInput => exact .ok (arena.adds_leaf _)
  | pattern source =>
      simp only [Expr.faults, Expr.lower, Expr.subexpressions]
      cases hpattern : Pattern.anchored? source with
      | none =>
          simp only [List.flatMap_cons, List.flatMap_nil, ownFaults, hpattern]
          exact .error
      | some p =>
          simp only [List.flatMap_cons, List.flatMap_nil, ownFaults, hpattern]
          exact .ok (arena.adds_leaf _)
  | range first last =>
      simp only [Expr.faults, Expr.lower, Expr.subexpressions, List.flatMap_cons, List.flatMap_nil,
        ownFaults]
      by_cases hlt : last < first
      · rw [if_neg (Char.not_le.2 hlt), if_pos hlt]
        exact .error
      · rw [if_pos (Char.not_lt.1 hlt), if_neg hlt]
        exact .ok (arena.adds_leaf _)
  | seq parts | choice parts =>
      have hparts := Expr.lowerAll_reports arena parts
      simp only [Expr.faults, Expr.lower, Expr.subexpressions, List.flatMap_cons]
      cases parts with
      | nil => exact .error
      | cons part parts =>
          refine hparts.bind_nil ?_
          rintro ⟨later, ids⟩ hadds
          exact .ok (hadds.add rfl)
  | rep body least most =>
      have hbody := Expr.lower_reports arena body
      have hadd (result : Arena × Nat) (hadds : arena.Adds draft lib
          (body.subexpressions.flatMap (Expr.unresolved draft lib rule)) result.1) :
          arena.Adds draft lib
            ((Expr.rep body least most).subexpressions.flatMap (Expr.unresolved draft lib rule))
            (result.1.addKind (.rep result.2 least most)).1 := hadds.add rfl
      simp only [Expr.faults, Expr.lower, Expr.subexpressions, List.flatMap_cons]
      cases most with
      | none => exact hbody.bind_nil fun result hadds => .ok (hadd result hadds)
      | some most =>
          rw [Expr.filter_bound, ownFaults]
          split
          · exact hbody.bind_nil fun result hadds => .ok (hadd result hadds)
          · exact .error
  | ahead body | notAhead body | upTo body | label body name =>
      refine (Expr.lower_reports arena body).bind_nil ?_
      rintro ⟨later, id⟩ hadds
      exact .ok (hadds.add rfl)
  | ref name | inherited name =>
      refine .ok ?_
      simp only [Expr.subexpressions, List.flatMap_cons, List.flatMap_nil, List.append_nil]
      exact arena.adds_leaf _
  | extended body extension =>
      refine (Expr.lower_reports arena body).bind_nil ?_
      rintro ⟨later, id⟩ hadds
      exact .ok (hadds.modify id fun _ => rfl)

theorem Expr.lowerAll_reports (arena : Arena) (es : List Expr) :
    Reports (fun result : Arena × List Nat =>
        arena.Adds draft lib
          ((subexpressionsAll es).flatMap (Expr.unresolved draft lib rule)) result.1)
      ((subexpressionsAll es).flatMap (ownFaults grammar rule))
      (Expr.lowerAll grammar rule arena es) := by
  cases es with
  | nil => exact .ok (List.append_nil _).symm
  | cons e es =>
      simp only [subexpressionsAll, List.flatMap_append, Expr.lowerAll]
      refine (Expr.lower_reports arena e).bind ?_
      rintro ⟨later, id⟩ hadds
      refine (Expr.lowerAll_reports later es).bind_nil ?_
      rintro ⟨last, ids⟩ hadds'
      exact .ok (hadds.trans hadds')

end

theorem isSome_lookup_iff_mem {defined : List (String × Nat)} {name : String} :
    (defined.lookup name).isSome = true ↔ name ∈ defined.map (·.1) := by
  rw [List.lookup_isSome_iff, List.mem_map]
  refine exists_congr fun entry => and_congr_right fun _ => ?_
  rw [beq_iff_eq, eq_comm]

/-- Lowering definitions reports their faults, and otherwise all their names are defined. -/
theorem lowerDefinitions_reports (arena : Arena) (defined : List (String × Nat))
    (definitions : List (String × Expr)) :
    Reports (fun result : Arena × List (String × Nat) =>
        arena.Adds draft lib (definitions.flatMap fun definition =>
          definition.2.subexpressions.flatMap (Expr.unresolved draft lib definition.1)) result.1 ∧
        result.2.map (·.1) = defined.map (·.1) ++ definitions.map (·.1))
      (Draft.definitionFaults grammar (defined.map (·.1)) definitions)
      (lowerDefinitions grammar arena defined definitions) := by
  induction definitions generalizing arena defined with
  | nil => exact .ok ⟨(List.append_nil _).symm, (List.append_nil _).symm⟩
  | cons definition rest ih =>
      obtain ⟨name, e⟩ := definition
      simp only [lowerDefinitions, Draft.definitionFaults]
      by_cases hseen : name ∈ defined.map (·.1)
      · rw [if_pos hseen, if_pos (isSome_lookup_iff_mem.2 hseen)]
        exact .error
      · rw [if_neg hseen, if_neg (mt isSome_lookup_iff_mem.1 hseen), List.nil_append,
          List.flatMap_cons]
        refine (Expr.lower_reports draft lib grammar name arena e).bind ?_
        rintro ⟨later, id⟩ hadds
        have hnames : (defined ++ [(name, id)]).map (·.1) = defined.map (·.1) ++ [name] := by
          simp
        have hrest := ih (later.modify id fun rule => { rule with name := some name })
          (defined ++ [(name, id)])
        rw [hnames] at hrest
        refine hrest.imp ?_
        rintro ⟨last, defined'⟩ ⟨hadds', hdefined⟩
        have hnamed : arena.Adds draft lib _
            (later.modify id fun rule => { rule with name := some name }) :=
          hadds.modify id fun _ => rfl
        refine ⟨hnamed.trans hadds', ?_⟩
        rw [hdefined, List.append_assoc]
        rfl

end Lower

/-! ## Names -/

namespace Library

variable {lib : Library} {draft : Draft} {name : String}

theorem isSome_lookupIncluded_iff :
    (lib.lookupIncluded draft.includes name).isSome = true ↔ draft.Inherits lib name := by
  simp only [lookupIncluded, List.findSome?_isSome_iff, List.mem_reverse, isSome_lookup_iff,
    Draft.Inherits]

theorem isSome_lookupDraft_iff {defined : List (String × Nat)}
    (hdefined : defined.map (·.1) = draft.definitions.map (·.1)) :
    (lib.lookupDraft draft defined name).isSome = true ↔ draft.Resolves lib name := by
  have hown : (defined.lookup name).isSome = true ↔ draft.Defines name := by
    rw [Draft.Defines, ← hdefined]
    exact isSome_lookup_iff_mem
  unfold lookupDraft Draft.Resolves
  rw [← hown, ← isSome_lookupIncluded_iff]
  cases defined.lookup name <;> simp

end Library

/-! ## Resolving -/

theorem reports_lookup {found : Option RuleRef} {p : Prop} [Decidable p] (error : GrammarError)
    (h : found.isSome = true ↔ p) :
    Reports (fun _ => True) (if p then [] else [error])
      (match found with
        | some target => .ok target
        | none => .error error) := by
  cases found with
  | some target =>
      rw [if_pos (h.1 rfl)]
      exact .ok trivial
  | none =>
      rw [if_neg fun hp => by cases h.2 hp]
      exact .error

section Resolve

variable {draft : Draft} {lib : Library}

theorem Rule.resolve_reports {ref inherited : String → String → Except GrammarError RuleRef}
    (href : ∀ name rule, Reports (fun _ => True)
      (if draft.Resolves lib name then [] else [.undefinedRule draft.name rule name])
      (ref name rule))
    (hinherited : ∀ name rule, Reports (fun _ => True)
      (if draft.Inherits lib name then [] else [.undefinedInherited draft.name rule name])
      (inherited name rule))
    (rule : Rule String) :
    Reports (fun _ => True) (rule.kind.unresolved draft lib) (rule.resolve ref inherited) := by
  have hkind : Reports (fun _ => True) (rule.kind.unresolved draft lib)
      (rule.kind.resolve ref inherited) := by
    cases rule.kind with
    | ref name owner => exact (href name owner).map fun _ _ => trivial
    | inherited name owner => exact (hinherited name owner).map fun _ _ => trivial
    | _ => exact .ok trivial
  exact hkind.map fun _ _ => trivial

end Resolve

namespace Library

variable {lib : Library} {draft : Draft}

theorem rootOf_reports {defined : List (String × Nat)}
    (hincludes : ∀ g ∈ draft.includes, g < lib.grammars.size)
    (hdefined : defined.map (·.1) = draft.definitions.map (·.1)) :
    Reports (fun _ => True) (draft.rootFaults lib) (lib.rootOf draft defined) := by
  unfold rootOf Draft.rootFaults
  cases draft.root with
  | some name => exact reports_lookup _ (isSome_lookupDraft_iff hdefined)
  | none =>
      cases hdefinitions : draft.definitions with
      | cons definition rest =>
          rw [hdefinitions] at hdefined
          cases defined with
          | nil => simp at hdefined
          | cons entry defined => exact .ok trivial
      | nil =>
          rw [hdefinitions] at hdefined
          obtain rfl : defined = [] := List.map_eq_nil_iff.1 hdefined
          cases hincluded : draft.includes with
          | nil => exact .error
          | cons inner rest =>
              have hlast : (inner :: rest).getLast (List.cons_ne_nil inner rest) ∈
                  draft.includes := by
                rw [hincluded]
                exact List.getLast_mem _
              have hgrammar := Array.getElem?_eq_getElem (hincludes _ hlast)
              rw [List.getLast?_eq_some_getLast (List.cons_ne_nil inner rest), Option.bind_some,
                grammar?, hgrammar]
              exact .ok trivial

/-- Building a grammar reports the faults of the draft. -/
theorem build_reports (lib : Library) (draft : Draft)
    (hincludes : ∀ g ∈ draft.includes, g < lib.grammars.size) :
    Reports (fun _ => True) (draft.faults lib) (lib.build draft) := by
  unfold build Draft.faults
  refine (lowerDefinitions_reports draft lib draft.name #[] [] draft.definitions).bind ?_
  rintro ⟨arena, defined⟩ ⟨hadds, hdefined⟩
  have hreferences : arena.unresolved draft lib = draft.referenceFaults lib := hadds
  rw [← hreferences]
  refine (Reports.array_mapM (Rule.resolve_reports
    (fun name rule => reports_lookup _ (isSome_lookupDraft_iff hdefined))
    (fun name rule => reports_lookup _ isSome_lookupIncluded_iff)) arena).bind fun rules _ => ?_
  exact (rootOf_reports hincludes hdefined).bind_nil fun root _ => .ok trivial

theorem exists_build_iff {lib : Library} {draft : Draft}
    (hincludes : ∀ g ∈ draft.includes, g < lib.grammars.size) :
    (∃ grammar, lib.build draft = .ok grammar) ↔ draft.WellFormed lib := by
  rw [(build_reports lib draft hincludes).exists_ok_iff, Draft.faults_eq_nil_iff]

theorem exists_add_iff {draft : Draft} :
    (∃ later, lib.add draft = .ok later) ↔ ∃ grammar, lib.build draft = .ok grammar := by
  constructor
  · rintro ⟨later, hadd⟩
    obtain ⟨grammar, hbuild, -⟩ := exists_build_of_add hadd
    exact ⟨grammar, hbuild⟩
  · rintro ⟨grammar, hbuild⟩
    exact ⟨⟨lib.grammars.push grammar⟩, by rw [add, hbuild]; rfl⟩

/-- Two brackets in a row, or letters in their place. -/
def pairs : Draft where
  name := "Pairs"
  definitions :=
    [("pairs", .seq [.ref "brackets", .ref "brackets"]),
      ("brackets", .choice [.inherited none, .range 'a' 'z'])]
  includes := [0]

end Library

end Peg
