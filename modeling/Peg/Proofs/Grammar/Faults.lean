import Mathlib.Data.List.Nodup
import Peg.Proofs.Grammar.Scope

/-!
# What can be wrong with a draft

`Draft.WellFormed` says what a draft has to keep to, and `Draft.faults` lists where it does not: the
faults of its definitions one after the other, then the references that stand for nothing, then that
of the root. A draft is well-formed if and only if it has no fault (`Draft.faults_eq_nil_iff`).
-/

namespace Peg

namespace Expr

mutual

/-- The expression and those inside it, each before its parts and these from left to right. -/
def subexpressions : Expr → List Expr
  | text literal ignoreCase => [text literal ignoreCase]
  | pattern source => [pattern source]
  | range first last => [range first last]
  | any => [any]
  | endOfInput => [endOfInput]
  | seq parts => seq parts :: subexpressionsAll parts
  | choice options => choice options :: subexpressionsAll options
  | rep body least most => rep body least most :: body.subexpressions
  | ahead body => ahead body :: body.subexpressions
  | notAhead body => notAhead body :: body.subexpressions
  | upTo stop => upTo stop :: stop.subexpressions
  | ref name => [ref name]
  | inherited name => [inherited name]
  | label body name => label body name :: body.subexpressions
  | extended body extension => extended body extension :: body.subexpressions

def subexpressionsAll : List Expr → List Expr
  | [] => []
  | e :: es => e.subexpressions ++ subexpressionsAll es

end

/-- There is nothing wrong with the expression itself, whatever its parts and names are. A pattern is
read inside the group that ties it to the place. -/
def Sound : Expr → Prop
  | pattern source => (Pattern.anchored? source).isSome
  | range first last => first ≤ last
  | seq parts => parts ≠ []
  | choice options => options ≠ []
  | rep _ least (some most) => 1 ≤ most ∧ least ≤ most
  | _ => True

/-- What is wrong with the expression itself in a definition. -/
def ownFaults (grammar rule : String) : Expr → List GrammarError
  | pattern source =>
    if (Pattern.anchored? source).isSome then [] else [.invalidPattern grammar rule]
  | range first last => if first ≤ last then [] else [.invalidRange grammar rule first last]
  | seq [] => [.emptyRule grammar rule .sequence]
  | choice [] => [.emptyRule grammar rule .choice]
  | rep _ least (some most) =>
    if 1 ≤ most ∧ least ≤ most then [] else [.invalidRepeat grammar rule least most]
  | _ => []

/-- What is wrong with an expression in a definition and with those inside it. -/
def faults (grammar rule : String) (e : Expr) : List GrammarError :=
  e.subexpressions.flatMap (ownFaults grammar rule)

theorem ownFaults_eq_nil_iff {grammar rule : String} {e : Expr} :
    e.ownFaults grammar rule = [] ↔ e.Sound := by
  cases e with
  | pattern source => simp [ownFaults, Sound, Option.isSome_iff_ne_none]
  | range first last => simp [ownFaults, Sound]
  | seq parts => cases parts <;> simp [ownFaults, Sound]
  | choice options => cases options <;> simp [ownFaults, Sound]
  | rep body least most => cases most <;> simp [ownFaults, Sound]
  | _ => simp [ownFaults, Sound]

theorem faults_eq_nil_iff {grammar rule : String} {e : Expr} :
    e.faults grammar rule = [] ↔ ∀ sub ∈ e.subexpressions, sub.Sound := by
  simp only [faults, List.flatMap_eq_nil_iff, ownFaults_eq_nil_iff]

end Expr

namespace Draft

def Defines (draft : Draft) (name : String) : Prop := name ∈ draft.definitions.map (·.1)

/-- One of the included grammars, or one that these include, defines a rule of this name. -/
def Inherits (draft : Draft) (lib : Library) (name : String) : Prop :=
  ∃ inner ∈ draft.includes, ∃ k ∈ lib.inclusions inner,
    ((lib.grammar? k).any (·.hasRule name)) = true

/-- The name stands for a rule. -/
def Resolves (draft : Draft) (lib : Library) (name : String) : Prop :=
  draft.Defines name ∨ draft.Inherits lib name

instance (draft : Draft) (name : String) : Decidable (draft.Defines name) :=
  inferInstanceAs (Decidable (name ∈ draft.definitions.map (·.1)))

instance (draft : Draft) (lib : Library) (name : String) : Decidable (draft.Inherits lib name) :=
  inferInstanceAs (Decidable (∃ inner ∈ draft.includes, ∃ k ∈ lib.inclusions inner,
    ((lib.grammar? k).any (·.hasRule name)) = true))

instance (draft : Draft) (lib : Library) (name : String) : Decidable (draft.Resolves lib name) :=
  inferInstanceAs (Decidable (draft.Defines name ∨ draft.Inherits lib name))

end Draft

/-- If the expression is a reference in the definition of a rule, its name stands for a rule. To the
rule above without a name refers the name of the definition. -/
def Expr.Resolved (draft : Draft) (lib : Library) (rule : String) : Expr → Prop
  | ref name => draft.Resolves lib name
  | inherited name => draft.Inherits lib (name.getD rule)
  | _ => True

def Expr.unresolved (draft : Draft) (lib : Library) (rule : String) : Expr → List GrammarError
  | ref name => if draft.Resolves lib name then [] else [.undefinedRule draft.name rule name]
  | inherited name =>
    if draft.Inherits lib (name.getD rule) then []
    else [.undefinedInherited draft.name rule (name.getD rule)]
  | _ => []

theorem Expr.unresolved_eq_nil_iff {draft : Draft} {lib : Library} {rule : String} {e : Expr} :
    e.unresolved draft lib rule = [] ↔ e.Resolved draft lib rule := by
  cases e <;> simp [Expr.unresolved, Expr.Resolved]

namespace Draft

/-- What a draft has to keep to for a grammar to be built from it. -/
structure WellFormed (draft : Draft) (lib : Library) : Prop where
  distinct : (draft.definitions.map (·.1)).Nodup
  sound : ∀ definition ∈ draft.definitions, ∀ e ∈ definition.2.subexpressions, e.Sound
  resolved : ∀ definition ∈ draft.definitions, ∀ e ∈ definition.2.subexpressions,
    e.Resolved draft lib definition.1
  root : match draft.root with
    | some name => draft.Resolves lib name
    | none => draft.definitions ≠ [] ∨ draft.includes ≠ []

/-- The faults of definitions that come after others of the names `seen`: of each first that its name
was seen before, then those of its expression. -/
def definitionFaults (grammar : String) : List String → List (String × Expr) → List GrammarError
  | _, [] => []
  | seen, (name, e) :: rest =>
    (if name ∈ seen then [.duplicateRule grammar name] else []) ++ e.faults grammar name ++
      definitionFaults grammar (seen ++ [name]) rest

def referenceFaults (draft : Draft) (lib : Library) : List GrammarError :=
  draft.definitions.flatMap fun definition =>
    definition.2.subexpressions.flatMap (Expr.unresolved draft lib definition.1)

def rootFaults (draft : Draft) (lib : Library) : List GrammarError :=
  match draft.root with
  | some name => if draft.Resolves lib name then [] else [.undefinedRoot draft.name name]
  | none =>
    match draft.definitions, draft.includes with
    | [], [] => [.emptyGrammar draft.name]
    | _, _ => []

/-- Everything that is wrong with a draft, in the order in which it is met. -/
def faults (draft : Draft) (lib : Library) : List GrammarError :=
  definitionFaults draft.name [] draft.definitions ++
    (draft.referenceFaults lib ++ draft.rootFaults lib)

variable {draft : Draft} {lib : Library}

theorem definitionFaults_eq_nil_iff {grammar : String} {seen : List String}
    {definitions : List (String × Expr)} :
    definitionFaults grammar seen definitions = [] ↔
      (∀ definition ∈ definitions, definition.1 ∉ seen) ∧ (definitions.map (·.1)).Nodup ∧
        ∀ definition ∈ definitions, ∀ e ∈ definition.2.subexpressions, e.Sound := by
  induction definitions generalizing seen with
  | nil => simp [definitionFaults]
  | cons definition rest ih =>
      obtain ⟨name, e⟩ := definition
      simp only [definitionFaults, List.append_eq_nil_iff, ih, Expr.faults_eq_nil_iff,
        List.forall_mem_cons, List.map_cons, List.nodup_cons, List.mem_append, List.mem_singleton,
        List.mem_map, not_or]
      constructor
      · rintro ⟨⟨hname, hsound⟩, hseen, hdistinct, hrest⟩
        have hfresh : name ∉ seen := by
          intro hmem
          simp [hmem] at hname
        refine ⟨⟨hfresh, fun d hd => (hseen d hd).1⟩, ⟨?_, hdistinct⟩, hsound, hrest⟩
        rintro ⟨d, hd, heq⟩
        exact (hseen d hd).2 heq
      · rintro ⟨⟨hfresh, hseen⟩, ⟨hnew, hdistinct⟩, hsound, hrest⟩
        refine ⟨⟨if_neg hfresh, hsound⟩, fun d hd => ⟨hseen d hd, ?_⟩, hdistinct, hrest⟩
        intro heq
        exact hnew ⟨d, hd, heq⟩

theorem referenceFaults_eq_nil_iff :
    draft.referenceFaults lib = [] ↔
      ∀ definition ∈ draft.definitions, ∀ e ∈ definition.2.subexpressions,
        e.Resolved draft lib definition.1 := by
  simp only [referenceFaults, List.flatMap_eq_nil_iff, Expr.unresolved_eq_nil_iff]

theorem rootFaults_eq_nil_iff :
    draft.rootFaults lib = [] ↔
      match draft.root with
      | some name => draft.Resolves lib name
      | none => draft.definitions ≠ [] ∨ draft.includes ≠ [] := by
  unfold rootFaults
  cases draft.root with
  | some name => simp
  | none => cases draft.definitions <;> cases draft.includes <;> simp

/-- A draft is well-formed if and only if it has no fault. -/
theorem faults_eq_nil_iff : draft.faults lib = [] ↔ draft.WellFormed lib := by
  simp only [faults, List.append_eq_nil_iff, definitionFaults_eq_nil_iff,
    referenceFaults_eq_nil_iff, rootFaults_eq_nil_iff]
  constructor
  · rintro ⟨⟨-, hdistinct, hsound⟩, hresolved, hroot⟩
    exact ⟨hdistinct, hsound, hresolved, hroot⟩
  · rintro ⟨hdistinct, hsound, hresolved, hroot⟩
    exact ⟨⟨fun _ _ => List.not_mem_nil, hdistinct, hsound⟩, hresolved, hroot⟩

end Draft

end Peg
