import Peg.Proofs.Grammar.Replacement
import Peg.Proofs.Match.View
import Peg.Proofs.Semantics.Reach

/-!
# Wrappers around an expression

An expression that is put inside a choice of nothing else, or inside a label, keeps its outcomes. In
derivations one more rule stands around it, which takes over the name that the rule of the expression
had. Main statement: `Site.echoes_wrapped`.
-/

namespace Peg

/-- The expression inside a label, or inside a choice if there is none. -/
def Expr.wrapped (e : Expr) : Option String → Expr
  | none => .choice [e]
  | some name => .label e name

/-! ## Derivations -/

/-- The derivation with further rules around it, the outermost first. -/
def Derivation.behind (front : List RuleRef) (d : Derivation) : Derivation :=
  front.foldr .wrapped d

section Rewrapped

variable (lib lib' : Library) (S : RuleRef → RuleRef → Prop) (label? : Option String)
  (wrapper : RuleRef)

/-- A rule of the first library becomes one of the second, with a front of further rules: either both
have the same name and there is none in front, or the wrapper is, with the label and with the name that
the rule has lost. -/
inductive Library.Becomes : RuleRef → List RuleRef → RuleRef → Prop
  | same {r r' name} : lib.Corresponding lib' S r r' name name → Becomes r [] r'
  | inserted {r r' rule} : lib'.rule? wrapper = some rule → rule.label = label? →
      lib.Corresponding lib' S r r' rule.name none → Becomes r [wrapper] r'

/-- The second derivation has the wrapper around some of the rules of the first one. -/
inductive Derivation.Rewrapped : Derivation → Derivation → Prop
  | branch {r front r'} (n : Nat) {ds ds'} : lib.Becomes lib' S label? wrapper r front r' →
      List.Forall₂ Rewrapped ds ds' → Rewrapped (.branch r n ds) (.behind front (.branch r' n ds'))
  | wrapped {r front r' d d'} : lib.Becomes lib' S label? wrapper r front r' → Rewrapped d d' →
      Rewrapped (.wrapped r d) (.behind front (.wrapped r' d'))

/-- The second chain has the wrapper in front of some of the rules of the first one. -/
inductive Library.ChainsRewrapped : List RuleRef → List RuleRef → Prop
  | nil : ChainsRewrapped [] []
  | cons {r front r' rest rest'} : lib.Becomes lib' S label? wrapper r front r' →
      ChainsRewrapped rest rest' → ChainsRewrapped (r :: rest) (front ++ r' :: rest')

end Rewrapped

namespace Derivation

section Behind

variable (front : List RuleRef) (d : Derivation)

@[simp] theorem length_behind : (d.behind front).length = d.length := by
  induction front with
  | nil => rfl
  | cons r front ih => exact ih

@[simp] theorem primary_behind : (d.behind front).primary = d.primary := by
  induction front with
  | nil => rfl
  | cons r front ih => exact ih

@[simp] theorem parts_behind : (d.behind front).parts = d.parts := by
  induction front with
  | nil => rfl
  | cons r front ih => exact ih

@[simp] theorem chain_behind : (d.behind front).chain = front ++ d.chain := by
  induction front with
  | nil => rfl
  | cons r front ih => exact congrArg (r :: ·) ih

end Behind

end Derivation

variable {lib lib' : Library} {S : RuleRef → RuleRef → Prop} {label? : Option String}
  {wrapper : RuleRef}

theorem Library.Becomes.corresponding {r r' : RuleRef} {front : List RuleRef}
    (h : lib.Becomes lib' S label? wrapper r front r') :
    ∃ name name', lib.Corresponding lib' S r r' name name' := by
  cases h with
  | same h => exact ⟨_, _, h⟩
  | inserted _ _ h => exact ⟨_, _, h⟩

namespace Derivation.Rewrapped

theorem length_eq {d d' : Derivation} (h : Rewrapped lib lib' S label? wrapper d d') :
    d.length = d'.length := by
  cases h with
  | branch n _ _ => rw [length_behind]; rfl
  | wrapped _ hinner =>
      have hlength := length_eq hinner
      rw [length_behind]
      exact hlength

theorem chain {d d' : Derivation} (h : Rewrapped lib lib' S label? wrapper d d') :
    lib.ChainsRewrapped lib' S label? wrapper d.chain d'.chain := by
  cases h with
  | branch n hrules _ =>
      rw [chain_behind]
      exact .cons hrules .nil
  | wrapped hrules hinner =>
      rw [chain_behind]
      exact .cons hrules (chain hinner)

theorem primary {d d' : Derivation} (h : Rewrapped lib lib' S label? wrapper d d') :
    (∃ name name', lib.Corresponding lib' S d.primary d'.primary name name') ∧
      List.Forall₂ (Rewrapped lib lib' S label? wrapper) d.parts d'.parts := by
  cases h with
  | branch n hrules hparts =>
      rw [primary_behind, parts_behind]
      exact ⟨hrules.corresponding, hparts⟩
  | wrapped _ hinner =>
      have hprimary := primary hinner
      rw [primary_behind, parts_behind]
      exact hprimary

end Derivation.Rewrapped

/-! ## Names -/

namespace Library

/-- The names of rules in a row, each as often as it occurs. -/
def spelled (lib : Library) (chain : List RuleRef) : List String :=
  chain.flatMap fun r => ((lib.rule? r).map Rule.names).getD []

theorem spelled_append (chain chain' : List RuleRef) :
    lib.spelled (chain ++ chain') = lib.spelled chain ++ lib.spelled chain' :=
  List.flatMap_append

theorem spelled_singleton {r : RuleRef} {rule : Rule RuleRef} (hrule : lib.rule? r = some rule) :
    lib.spelled [r] = rule.names := by
  simp [spelled, hrule]

theorem Becomes.spelled {r r' : RuleRef} {front : List RuleRef}
    (h : lib.Becomes lib' S label? wrapper r front r') :
    (label? = none → lib'.spelled (front ++ [r']) = lib.spelled [r]) ∧
      ∀ name, name ∈ lib'.spelled (front ++ [r']) ↔
        name ∈ lib.spelled [r] ∨ wrapper ∈ front ∧ label? = some name := by
  cases h with
  | same h =>
      cases h with
      | intro hrule hrule' _ hname hname' hlabel =>
          rw [List.nil_append, spelled_singleton hrule, spelled_singleton hrule', Rule.names, Rule.names,
            hname, hname', hlabel]
          exact ⟨fun _ => rfl, fun name => by simp⟩
  | inserted houter hlabel h =>
      cases h with
      | intro hrule hrule' _ hname hname' hinner =>
          rw [spelled_append, spelled_singleton hrule, spelled_singleton hrule',
            spelled_singleton houter, Rule.names, Rule.names, Rule.names, hname, hname', hlabel, hinner]
          constructor
          · intro hnone
            rw [hnone]
            simp
          · intro name
            simp only [List.mem_append, Option.mem_toList, List.mem_singleton, true_and, Option.toList_none,
              List.nil_append]
            tauto

theorem ChainsRewrapped.spelled {chain chain' : List RuleRef} {outer : Rule RuleRef}
    (h : lib.ChainsRewrapped lib' S label? wrapper chain chain')
    (houter : lib'.rule? wrapper = some outer) (hlabel : outer.label = label?) :
    (label? = none → lib'.spelled chain' = lib.spelled chain) ∧
      ∀ name, name ∈ lib'.spelled chain' ↔
        name ∈ lib.spelled chain ∨ wrapper ∈ chain' ∧ label? = some name := by
  induction h with
  | nil =>
      refine ⟨fun _ => rfl, fun name => ?_⟩
      simp [Library.spelled]
  | @cons r front r' rest rest' hrules _ ih =>
      have hsplit : front ++ r' :: rest' = (front ++ [r']) ++ rest' := by simp
      have hsplit' : r :: rest = [r] ++ rest := rfl
      obtain ⟨hsame, hmem⟩ := hrules.spelled
      rw [hsplit, hsplit', spelled_append (front ++ [r']), spelled_append [r]]
      constructor
      · intro hnone
        rw [hsame hnone, ih.1 hnone]
      · intro name
        -- the rule may itself be one that the wrapper stands for elsewhere, which has the label already
        have hown : wrapper = r' → label? = some name → name ∈ lib'.spelled (front ++ [r']) := by
          rintro rfl hname
          rw [spelled_append, spelled_singleton houter, Rule.names, hlabel, hname]
          simp
        have hrest := ih.2 name
        rw [hmem name] at hown
        rw [List.mem_append, List.mem_append, hmem name, hrest]
        grind

theorem ChainsRewrapped.chainNames {chain chain' : List RuleRef} {outer : Rule RuleRef}
    (h : lib.ChainsRewrapped lib' S label? wrapper chain chain')
    (houter : lib'.rule? wrapper = some outer) (hlabel : outer.label = label?) :
    (label? = none → lib'.chainNames chain' = lib.chainNames chain) ∧
      ∀ name, name ∈ lib'.chainNames chain' ↔
        name ∈ lib.chainNames chain ∨ wrapper ∈ chain' ∧ label? = some name := by
  obtain ⟨hsame, hmem⟩ := h.spelled houter hlabel
  constructor
  · intro hnone
    show (lib'.spelled chain').eraseDups = (lib.spelled chain).eraseDups
    rw [hsame hnone]
  · intro name
    show name ∈ (lib'.spelled chain').eraseDups ↔ name ∈ (lib.spelled chain).eraseDups ∨ _
    rw [List.mem_eraseDups, List.mem_eraseDups]
    exact hmem name

end Library

/-! ## Outcomes -/

/-- Derivations of which the second one has the wrapper in it are alike, and extents that reach equally
far. -/
def Likeness.rewrapped (lib lib' : Library) (S : RuleRef → RuleRef → Prop) (label? : Option String)
    (wrapper : RuleRef) : Likeness where
  derivation := Derivation.Rewrapped lib lib' S label? wrapper
  extent e e' := e.reach = e'.reach
  length := Derivation.Rewrapped.length_eq
  zero := rfl
  andThen h h' := congrArg₂ max h h'

theorem Extent.reach_around_eq {L : Likeness} {e e' : Extent} (h : e.reach = e'.reach) (p : Place)
    {o o' : Option Derivation} (hrel : Option.Rel L.derivation o o') :
    (e.around p o).reach = (e'.around p o').reach := by
  cases hrel with
  | none => exact h
  | some hd =>
      show max e.reach _ = max e'.reach _
      rw [h, L.length hd]

namespace Library

theorem Becomes.rewrapped {r r' : RuleRef} {front : List RuleRef}
    (h : lib.Becomes lib' S label? wrapper r front r') {d d' : Derivation}
    (hover : Derivation.Over (Derivation.Rewrapped lib lib' S label? wrapper) r r' d d') :
    Derivation.Rewrapped lib lib' S label? wrapper d (.behind front d') := by
  cases hover with
  | branch n hparts => exact .branch n h hparts
  | wrapped hinner => exact .wrapped h hinner

/-- What a rule has become has an outcome that differs by what is in front of it, if this is so for the
rules that it refers to. -/
theorem Becomes.exists_outcome {r r' : RuleRef} {front : List RuleRef} {rule : Rule RuleRef}
    (h : lib.Becomes lib' S label? wrapper r front r') (hrule : lib.rule? r = some rule)
    {R : Judgement} (hR : R.Echoes (.rewrapped lib lib' S label? wrapper) S lib'.Yields) {p : Place}
    {o : Option Derivation} {e : Extent} (hperformed : R.Performed rule.kind r p o e) :
    ∃ o' e', lib'.Yields r' p o' e' ∧
      Option.Rel (Derivation.Rewrapped lib lib' S label? wrapper) o (o'.map (.behind front)) ∧
      (e.around p o).reach = e'.reach := by
  obtain ⟨name, name', ⟨hfound, hrule', hkind, -, -, -⟩⟩ := h.corresponding
  cases hfound.symm.trans hrule
  obtain ⟨o', e', hout', hover, hreach⟩ := hperformed.echo hR hkind
  have hrel : Option.Rel (Derivation.Rewrapped lib lib' S label? wrapper) o
      (o'.map (.behind front)) := by
    cases hover with
    | none => exact .none
    | some hover => exact .some (h.rewrapped hover)
  have hlength : Option.Rel (Likeness.rewrapped lib lib' S label? wrapper).derivation o
      (o'.map (.behind front)) := hrel
  refine ⟨o', e'.around p o', .intro hrule' hout', hrel, ?_⟩
  rw [Extent.reach_around_eq hreach p hlength]
  cases o' with
  | none => rfl
  | some d => simp [Extent.around]

theorem Implements.exists_of_wrapped {g i : Nat} {owner : String} {e : Expr} {name : Option String}
    {x : Option Extension} (h : lib.Implements g owner i (e.wrapped label?) name x) :
    ∃ j outer, lib.rule? ⟨g, i⟩ = some outer ∧ outer.name = name ∧ outer.label = label? ∧
      lib.Implements g owner j e none e.attached ∧
      (outer.kind = .choice [j] ∨ outer.kind = .label j) := by
  cases label? with
  | none =>
      cases h with
      | choice hrule hoptions =>
          cases hoptions with
          | cons hbody hrest =>
              cases hrest
              exact ⟨_, _, hrule, rfl, rfl, hbody, .inl rfl⟩
  | some label =>
      cases h with
      | label hrule hbody => exact ⟨_, _, hrule, rfl, rfl, hbody, .inr rfl⟩

/-- A rule that passes on the outcome of another one, and so reaches as far. -/
theorem Yields.wrap {r : RuleRef} {outer : Rule RuleRef} {j : Nat} (hrule : lib.rule? r = some outer)
    (hkind : outer.kind = .choice [j] ∨ outer.kind = .label j) {p : Place} {o : Option Derivation}
    {e : Extent} (h : lib.Yields (r.sibling j) p o e) :
    ∃ e', lib.Yields r p (o.map (.wrapped r)) e' ∧ e.reach = e'.reach := by
  have hreach {inner : Extent} (hinner : e.reach = inner.reach) :
      e.reach = (inner.around p (o.map (.wrapped r))).reach := by
    cases o with
    | none => exact hinner
    | some d =>
        have hend := h.end_le_reach
        show e.reach = max inner.reach (p.offset + d.length)
        rw [← hinner, Nat.max_eq_left hend]
  rcases hkind with hkind | hkind
  · cases o with
    | none =>
        have hfirst : Judgement.First lib.Yields ([j].map r.sibling) p none (e.andThen .zero) :=
          .next h .nil
        have hperformed : Judgement.Performed lib.Yields outer.kind r p none (e.andThen .zero) := by
          rw [hkind]
          exact .choice hfirst
        exact ⟨_, .intro hrule hperformed, hreach (Nat.max_zero e.reach).symm⟩
    | some d => exact ⟨_, .intro hrule (hkind ▸ .choice (.found h)), hreach rfl⟩
  · exact ⟨_, .intro hrule (hkind ▸ .label h), hreach rfl⟩

end Library

namespace Site

variable {site : Site} {e : Expr} (hlib : lib.BuiltFrom (site.drafts e))
  (hlib' : lib'.BuiltFrom (site.drafts (e.wrapped label?)))

include hlib hlib'

/-- Counterparts have outcomes that differ by the wrapper only. -/
theorem echoes_wrapped (hwrapper : site.rule? lib' = some wrapper) :
    Judgement.Echoes
      (.rewrapped lib lib' (site.Counterpart e (e.wrapped label?) lib lib') label? wrapper)
      (site.Counterpart e (e.wrapped label?) lib lib') lib.Yields lib'.Yields := by
  refine Library.Yields.echoes fun {R r rule p o extent r'} hR hrule hperformed hr => ?_
  rcases hr.cases hlib hlib' with ⟨name, hrules⟩ |
    ⟨i, i', name, x, x', rfl, rfl, himplements, himplements', hplace⟩
  -- around the place the rules are of the same kind
  · obtain ⟨o', extent', hout', hrel, hreach⟩ :=
      (Library.Becomes.same hrules).exists_outcome hrule hR hperformed
    rw [show o'.map (.behind []) = o' from Option.map_id'] at hrel
    exact ⟨o', extent', hout', hrel, hreach⟩
  -- in the place the wrapper stands around a rule of the same kind
  · obtain rfl := Option.some.inj (hwrapper.symm.trans hplace)
    obtain ⟨j, outer, houter, hname, hlabel, hbody, hkind⟩ := himplements'.exists_of_wrapped
    have hrules := himplements.corresponding (fun hsame hsame' => .same hsame hsame')
      (refers_counterparts hlib hlib' site.grammar) hbody
    rw [← hname] at hrules
    obtain ⟨o', extent', hout', hrel, hreach⟩ :=
      (Library.Becomes.inserted houter hlabel hrules).exists_outcome hrule hR hperformed
    obtain ⟨outside, hwrapped, hsame⟩ := Library.Yields.wrap houter hkind hout'
    exact ⟨_, outside, hwrapped, hrel, hreach.trans hsame⟩

end Site

end Peg
