import Peg.Proofs.Grammar.Replacement
import Peg.Proofs.Semantics.Adequacy

/-!
# Replacing an expression by one that means the same

Where only successes and lengths are looked at, an expression stands for another one if its rules give
what those of the other one give, as far as the rules do that both are made of. It may then take the
place of the other one anywhere in a grammar. Main statements: `Site.gives_counterpart`, about what
rules mean, and `Site.run_length_eq` and `Site.runBare_length_eq`, about what runs find.
-/

namespace Peg

/-- Derivations of the same length are alike. -/
def Likeness.lengths : Likeness where
  derivation d d' := d.length = d'.length
  extent _ _ := True
  length h := h
  zero := trivial
  andThen _ _ := trivial

namespace Library

/-- The rule matches a text of the length at the place, or it fails there if there is none. -/
def Gives (lib : Library) (r : RuleRef) (p : Place) (length : Option Nat) : Prop :=
  ∃ o e, lib.Yields r p o e ∧ o.map Derivation.length = length

variable {lib lib' : Library} {r r' : RuleRef} {rule : Rule RuleRef} {p : Place}

theorem gives_of_performed (hrule : lib.rule? r = some rule) {kind : Kind RuleRef}
    (hkind : rule.kind = kind) {o : Option Derivation} {e : Extent}
    (h : Judgement.Performed lib.Yields kind r p o e) : lib.Gives r p (o.map Derivation.length) := by
  subst hkind
  exact ⟨o, e.around p o, .intro hrule h, rfl⟩

theorem Gives.length_eq {n : Option Nat} (h : lib.Gives r p n) {o : Option Derivation} {e : Extent}
    (ho : lib.Yields r p o e) : o.map Derivation.length = n := by
  obtain ⟨o', e', ho', rfl⟩ := h
  rw [(Yields.unique ho ho').1]

theorem Gives.exists_rel {o : Option Derivation} (h : lib.Gives r p (o.map Derivation.length)) :
    ∃ o' e, lib.Yields r p o' e ∧ Option.Rel Likeness.lengths.derivation o o' := by
  obtain ⟨o', e, hout, hlength⟩ := h
  refine ⟨o', e, hout, ?_⟩
  cases o with
  | none =>
      rw [Option.map_none, Option.map_eq_none_iff] at hlength
      rw [hlength]
      exact .none
  | some d =>
      obtain ⟨d', rfl, hd⟩ := Option.map_eq_some_iff.1 hlength
      exact .some hd.symm

end Library

theorem Judgement.Echoes.gives {R : Judgement} {S : RuleRef → RuleRef → Prop} {lib' : Library}
    (hR : R.Echoes .lengths S lib'.Yields) {r r' : RuleRef} (hr : S r r') {p : Place}
    {o : Option Derivation} {e : Extent} (hout : R r p o e) :
    lib'.Gives r' p (o.map Derivation.length) := by
  obtain ⟨o', e', hout', hrel, -⟩ := hR hout r' hr
  refine ⟨o', e', hout', ?_⟩
  cases hrel with
  | none => rfl
  | some hd => exact congrArg Option.some (Likeness.lengths.length hd).symm

theorem Likeness.rel_lengths_of_over {r r' : RuleRef} {o o' : Option Derivation}
    (h : Option.Rel (Derivation.Over Likeness.lengths.derivation r r') o o') :
    Option.Rel Likeness.lengths.derivation o o' := by
  cases h with
  | none => exact .none
  | some hd =>
      cases hd with
      | branch n _ => exact .some rfl
      | wrapped hd => exact .some hd

/-- The rules of an expression give in a library what the judgement says of the rules that implement the
same in another one. -/
def Judgement.GivenBy (R : Judgement) (lib lib' : Library) (g : Nat) (owner : String) : Prop :=
  ∀ ⦃i i' body⦄, lib.Implements g owner i body none body.attached →
    lib'.Implements g owner i' body none body.attached →
    ∀ ⦃p o e⦄, R ⟨g, i⟩ p o e → lib'.Gives ⟨g, i'⟩ p (o.map Derivation.length)

/-- Wherever the rules of both expressions are made of the same, the second one gives what the first one
does. -/
structure Expr.StandsFor (e' e : Expr) : Prop where
  parts : ∀ {lib lib' : Library} {g owner i i' name x x' rule},
    lib.Implements g owner i e name x → lib'.Implements g owner i' e' name x' →
    lib.rule? ⟨g, i⟩ = some rule → ∀ j ∈ rule.kind.children, ∃ j' body,
      lib.Implements g owner j body none body.attached ∧
        lib'.Implements g owner j' body none body.attached
  gives : ∀ {lib lib' : Library} {g owner i i' name x x' rule} {R : Judgement},
    lib.Implements g owner i e name x → lib'.Implements g owner i' e' name x' →
    lib.rule? ⟨g, i⟩ = some rule → R.GivenBy lib lib' g owner →
    ∀ {p o extent}, R.Performed rule.kind ⟨g, i⟩ p o extent →
      lib'.Gives ⟨g, i'⟩ p (o.map Derivation.length)

namespace Site

variable {site : Site} {e e' : Expr} {lib lib' : Library} (h : e'.StandsFor e)
  (hlib : lib.BuiltFrom (site.drafts e)) (hlib' : lib'.BuiltFrom (site.drafts e'))

include h hlib hlib'

theorem echoes_lengths :
    Judgement.Echoes .lengths (site.Counterpart e e' lib lib') lib.Yields lib'.Yields := by
  refine Library.Yields.echoes fun {R r rule p o extent r'} hR hrule hperformed hr => ?_
  rcases hr.cases hlib hlib' with ⟨name, ⟨hfound, hrule', hkind, -, -, -⟩⟩ |
    ⟨i, i', name, x, x', rfl, rfl, himplements, himplements', -⟩
  -- around the place the rules are of the same kind
  · cases hfound.symm.trans hrule
    obtain ⟨o', extent', hout', hover, -⟩ := hperformed.echo hR hkind
    exact ⟨o', _, .intro hrule' hout', Likeness.rel_lengths_of_over hover, trivial⟩
  -- in the place they give the same
  · have hgives := h.gives himplements himplements' hrule
      (fun _ _ _ hbody hbody' _ _ _ hout => hR.gives (.same hbody hbody') hout) hperformed
    obtain ⟨o', extent', hout', hrel⟩ := hgives.exists_rel
    exact ⟨o', extent', hout', hrel, trivial⟩

/-- A counterpart of a rule gives what the rule does. -/
theorem gives_counterpart {r r' : RuleRef} (hr : site.Counterpart e e' lib lib' r r') {p : Place}
    {o : Option Derivation} {extent : Extent} (hout : lib.Yields r p o extent) :
    lib'.Gives r' p (o.map Derivation.length) :=
  (echoes_lengths h hlib hlib').gives hr hout

theorem exists_counterpart_of_standsFor {r : RuleRef} (hr : lib.Knows r) :
    ∃ r', site.Counterpart e e' lib lib' r r' := by
  refine exists_counterpart hlib hlib' ?_ hr
  intro i i' name x x' rule himplements himplements' hrule j hj
  obtain ⟨j', body, hbody, hbody'⟩ := h.parts himplements himplements' hrule j hj
  exact ⟨⟨site.grammar, j'⟩, .same hbody hbody'⟩

end Site

/-! ## Runs -/

namespace Library

variable {lib : Library} {r : RuleRef} {s : State}

theorem yields_of_run (hlib : lib.Closed) (hr : lib.Knows r) (hs : lib.Ready s)
    (hunlimited : (lib.run r s).2.cursor.reachedLimit = false) :
    ∃ e, lib.Yields r s.place (lib.run r s).1 e := by
  obtain ⟨e, he, -⟩ := (run_follows hlib hr hs).leads.means hunlimited
  exact ⟨e, he⟩

theorem yields_of_runBare (hlib : lib.Closed) (hr : lib.Knows r) (hs : lib.Ready s)
    (hunlimited : (lib.runBare r s).2.cursor.reachedLimit = false) :
    ∃ e, lib.Yields r s.place (lib.runBare r s).1 e := by
  obtain ⟨rule, hrule⟩ := Option.isSome_iff_exists.1 hr
  have hbare : lib.runBare r s = (lib.exec s.cursor.nesting.room).perform r s rule.kind := by
    simp only [runBare, hrule]
  rw [hbare] at hunlimited ⊢
  obtain ⟨e, he, -⟩ :=
    ((lib.exec_sound hlib _).perform (hlib.targets r rule hrule) hs).2.means hunlimited
  exact ⟨_, .intro hrule he⟩

end Library

namespace Site

variable {site : Site} {e e' : Expr} {lib lib' : Library} (h : e'.StandsFor e)
  (hlib : lib.BuiltFrom (site.drafts e)) (hlib' : lib'.BuiltFrom (site.drafts e'))
  {r r' : RuleRef} (hr : site.Counterpart e e' lib lib' r r') {s s' : State} (hs : lib.Ready s)
  (hs' : lib'.Ready s') (hplace : s'.place = s.place)

include h hlib hlib' hr

theorem length_eq_of_yields {p : Place} {o o' : Option Derivation} {extent extent' : Extent}
    (hout : lib.Yields r p o extent) (hout' : lib'.Yields r' p o' extent') :
    o'.map Derivation.length = o.map Derivation.length :=
  (gives_counterpart h hlib hlib' hr hout).length_eq hout'

include hs hs' hplace

theorem run_length_eq (hunlimited : (lib.run r s).2.cursor.reachedLimit = false)
    (hunlimited' : (lib'.run r' s').2.cursor.reachedLimit = false) :
    (lib'.run r' s').1.map Derivation.length = (lib.run r s).1.map Derivation.length := by
  have hknows := hr.knows
  obtain ⟨_, hout⟩ := Library.yields_of_run hlib.built.closed hknows.1 hs hunlimited
  obtain ⟨_, hout'⟩ := Library.yields_of_run hlib'.built.closed hknows.2 hs' hunlimited'
  rw [hplace] at hout'
  exact length_eq_of_yields h hlib hlib' hr hout hout'

theorem runBare_length_eq (hunlimited : (lib.runBare r s).2.cursor.reachedLimit = false)
    (hunlimited' : (lib'.runBare r' s').2.cursor.reachedLimit = false) :
    (lib'.runBare r' s').1.map Derivation.length = (lib.runBare r s).1.map Derivation.length := by
  have hknows := hr.knows
  obtain ⟨_, hout⟩ := Library.yields_of_runBare hlib.built.closed hknows.1 hs hunlimited
  obtain ⟨_, hout'⟩ := Library.yields_of_runBare hlib'.built.closed hknows.2 hs' hunlimited'
  rw [hplace] at hout'
  exact length_eq_of_yields h hlib hlib' hr hout hout'

end Site

end Peg
