import Mathlib.Data.List.Forall2
import Mathlib.Data.Option.Basic
import Peg.Proofs.Grammar.Nodes
import Peg.Proofs.Semantics.Basic

/-!
# Outcomes echoed by other rules

When rules of the same kind refer to rules that correspond to each other, and those have outcomes
that are alike, so have the rules themselves: the loops go through the same rounds. What being alike
means is left open but for what the loops look at, which is the length of matches. Main statements:
`Judgement.Performed.echo` and, by induction on outcomes, `Library.Yields.echoes`.
-/

namespace Peg

/-- Which derivations and which extents are alike. -/
structure Likeness where
  derivation : Derivation → Derivation → Prop
  extent : Extent → Extent → Prop
  length : ∀ {d d'}, derivation d d' → d.length = d'.length
  zero : extent .zero .zero
  andThen : ∀ {a a' b b'}, extent a a' → extent b b' → extent (a.andThen b) (a'.andThen b')

/-- Derivations with the rules at their tops and parts in between that are alike. -/
inductive Derivation.Over (D : Derivation → Derivation → Prop) :
    RuleRef → RuleRef → Derivation → Derivation → Prop
  | branch {r r' : RuleRef} (n : Nat) {ds ds' : List Derivation} : List.Forall₂ D ds ds' →
      Over D r r' (.branch r n ds) (.branch r' n ds')
  | wrapped {r r' : RuleRef} {d d' : Derivation} : D d d' →
      Over D r r' (.wrapped r d) (.wrapped r' d')

/-- The kinds are the same but for the numbers of the rules that they refer to, which correspond to
each other. -/
inductive Kind.Corresponds (S : RuleRef → RuleRef → Prop) (r r' : RuleRef) :
    Kind RuleRef → Kind RuleRef → Prop
  | terminal (matcher : Matcher) : Corresponds S r r' (.terminal matcher) (.terminal matcher)
  | text (literal : List Char) (ignoreCase : Bool) :
      Corresponds S r r' (.text literal ignoreCase) (.text literal ignoreCase)
  | sequence {parts parts' : List Nat} :
      List.Forall₂ S (parts.map r.sibling) (parts'.map r'.sibling) →
      Corresponds S r r' (.sequence parts) (.sequence parts')
  | choice {options options' : List Nat} :
      List.Forall₂ S (options.map r.sibling) (options'.map r'.sibling) →
      Corresponds S r r' (.choice options) (.choice options')
  | rep {body body' : Nat} (least : Nat) (most : Option Nat) :
      S (r.sibling body) (r'.sibling body') →
      Corresponds S r r' (.rep body least most) (.rep body' least most)
  | ahead {body body' : Nat} : S (r.sibling body) (r'.sibling body') →
      Corresponds S r r' (.ahead body) (.ahead body')
  | notAhead {body body' : Nat} : S (r.sibling body) (r'.sibling body') →
      Corresponds S r r' (.notAhead body) (.notAhead body')
  | upTo {stop stop' : Nat} : S (r.sibling stop) (r'.sibling stop') →
      Corresponds S r r' (.upTo stop) (.upTo stop')
  | ref (name : String) {target target' : RuleRef} : S target target' →
      Corresponds S r r' (.ref name target) (.ref name target')
  | inherited (name : String) {target target' : RuleRef} : S target target' →
      Corresponds S r r' (.inherited name target) (.inherited name target')
  | label {body body' : Nat} : S (r.sibling body) (r'.sibling body') →
      Corresponds S r r' (.label body) (.label body')

theorem Kind.Corresponds.exists_of_child {S : RuleRef → RuleRef → Prop} {r r' : RuleRef}
    {kind kind' : Kind RuleRef} (h : kind.Corresponds S r r' kind') {j : Nat}
    (hj : j ∈ kind.children) : ∃ s, S (r.sibling j) s := by
  have hrow {is : List Nat} {rs : List RuleRef} (hrow : List.Forall₂ S (is.map r.sibling) rs)
      (hj : j ∈ is) : ∃ s, S (r.sibling j) s := by
    obtain ⟨n, hn⟩ := List.mem_iff_get.1 (List.mem_map_of_mem (f := r.sibling) hj)
    have hs := hrow.get n.2 (hrow.length_eq ▸ n.2)
    rw [hn] at hs
    exact ⟨_, hs⟩
  cases h with
  | terminal | text | ref | inherited => cases hj
  | sequence hparts => exact hrow hparts hj
  | choice hoptions => exact hrow hoptions hj
  | rep _ _ hs | ahead hs | notAhead hs | upTo hs | label hs =>
      rw [List.mem_singleton.1 hj]
      exact ⟨_, hs⟩

theorem Derivation.totalLength_eq_of_forall₂ {D : Derivation → Derivation → Prop}
    (hlength : ∀ {d d'}, D d d' → d.length = d'.length) {ds ds' : List Derivation}
    (h : List.Forall₂ D ds ds') : totalLength ds = totalLength ds' := by
  induction h with
  | nil => rfl
  | cons hd _ ih => rw [totalLength, totalLength, hlength hd, ih]

namespace Judgement

variable {L : Likeness} {S : RuleRef → RuleRef → Prop} {R R' : Judgement}

/-- Whatever a rule has for an outcome, all rules that correspond to it have one that is alike. -/
def Echoes (L : Likeness) (S : RuleRef → RuleRef → Prop) (R R' : Judgement) : Prop :=
  ∀ ⦃r p o e⦄, R r p o e → ∀ r', S r r' →
    ∃ o' e', R' r' p o' e' ∧ Option.Rel L.derivation o o' ∧ L.extent e e'

theorem Echoes.none (h : R.Echoes L S R') {r r' : RuleRef} (hr : S r r') {p : Place} {e : Extent}
    (hout : R r p none e) : ∃ e', R' r' p none e' ∧ L.extent e e' := by
  obtain ⟨o', e', hout', hrel, hextent⟩ := h hout r' hr
  cases hrel
  exact ⟨e', hout', hextent⟩

theorem Echoes.some (h : R.Echoes L S R') {r r' : RuleRef} (hr : S r r') {p : Place}
    {d : Derivation} {e : Extent} (hout : R r p (some d) e) :
    ∃ d' e', R' r' p (some d') e' ∧ L.derivation d d' ∧ L.extent e e' := by
  obtain ⟨o', e', hout', hrel, hextent⟩ := h hout r' hr
  cases hrel with
  | some hd => exact ⟨_, e', hout', hd, hextent⟩

theorem rel_map_cons {d d' : Derivation} (hd : L.derivation d d')
    {o o' : Option (List Derivation)} (h : Option.Rel (List.Forall₂ L.derivation) o o') :
    Option.Rel (List.Forall₂ L.derivation) (o.map (d :: ·)) (o'.map (d' :: ·)) := by
  cases h with
  | none => exact .none
  | some hds => exact .some (.cons hd hds)

theorem All.echo (hR : R.Echoes L S R') {rs rs' : List RuleRef} {p : Place}
    {o : Option (List Derivation)} {e : Extent} (h : R.All rs p o e)
    (hrs : List.Forall₂ S rs rs') :
    ∃ o' e', R'.All rs' p o' e' ∧ Option.Rel (List.Forall₂ L.derivation) o o' ∧ L.extent e e' := by
  induction h generalizing rs' with
  | nil =>
      cases hrs
      exact ⟨_, _, .nil, .some .nil, L.zero⟩
  | fail hr =>
      cases hrs with
      | cons hs _ =>
          obtain ⟨e', hr', hextent⟩ := hR.none hs hr
          exact ⟨_, e', .fail hr', .none, hextent⟩
  | cons hr _ ih =>
      cases hrs with
      | cons hs hrest =>
          obtain ⟨d', e', hr', hd, hextent⟩ := hR.some hs hr
          obtain ⟨o', e'', hall, hrel, hextents⟩ := ih hrest
          rw [L.length hd] at hall
          exact ⟨_, _, .cons hr' hall, rel_map_cons hd hrel, L.andThen hextent hextents⟩

theorem First.echo (hR : R.Echoes L S R') {rs rs' : List RuleRef} {p : Place}
    {o : Option Derivation} {e : Extent} (h : R.First rs p o e) (hrs : List.Forall₂ S rs rs') :
    ∃ o' e', R'.First rs' p o' e' ∧ Option.Rel L.derivation o o' ∧ L.extent e e' := by
  induction h generalizing rs' with
  | nil =>
      cases hrs
      exact ⟨_, _, .nil, .none, L.zero⟩
  | found hr =>
      cases hrs with
      | cons hs _ =>
          obtain ⟨d', e', hr', hd, hextent⟩ := hR.some hs hr
          exact ⟨_, e', .found hr', .some hd, hextent⟩
  | next hr _ ih =>
      cases hrs with
      | cons hs hrest =>
          obtain ⟨e', hr', hextent⟩ := hR.none hs hr
          obtain ⟨o', e'', hfirst, hrel, hextents⟩ := ih hrest
          exact ⟨o', _, .next hr' hfirst, hrel, L.andThen hextent hextents⟩

theorem rel_enough (least count : Nat) :
    Option.Rel (List.Forall₂ L.derivation) (if least ≤ count then some [] else none)
      (if least ≤ count then some [] else none) := by
  split
  · exact .some .nil
  · exact .none

theorem Repeated.echo (hR : R.Echoes L S R') {r r' : RuleRef} {count least : Nat}
    {most : Option Nat} {p : Place} {o : Option (List Derivation)} {e : Extent}
    (h : R.Repeated count r least most p o e) (hs : S r r') :
    ∃ o' e', R'.Repeated count r' least most p o' e' ∧
      Option.Rel (List.Forall₂ L.derivation) o o' ∧ L.extent e e' := by
  induction h with
  | full hmost => exact ⟨_, _, .full hmost, rel_enough _ _, L.zero⟩
  | stop hmost hr =>
      obtain ⟨e', hr', hextent⟩ := hR.none hs hr
      exact ⟨_, e', .stop hmost hr', rel_enough _ _, hextent⟩
  | empty hmost hr hlen =>
      obtain ⟨d', e', hr', hd, hextent⟩ := hR.some hs hr
      exact ⟨_, e', .empty hmost hr' ((L.length hd).symm.trans hlen), .some (.cons hd .nil), hextent⟩
  | more hmost hr hlen _ ih =>
      obtain ⟨d', e', hr', hd, hextent⟩ := hR.some hs hr
      obtain ⟨o', e'', hrest, hrel, hextents⟩ := ih hs
      rw [L.length hd] at hlen hrest
      exact ⟨_, _, .more hmost hr' hlen hrest, rel_map_cons hd hrel, L.andThen hextent hextents⟩

theorem UpTo.echo (hR : R.Echoes L S R') {stop stop' : RuleRef} {p : Place} {n : Nat} {e : Extent}
    (h : R.UpTo p stop n e) (hs : S stop stop') :
    ∃ e', R'.UpTo p stop' n e' ∧ L.extent e e' := by
  induction h with
  | found hr =>
      obtain ⟨d', e', hr', -, hextent⟩ := hR.some hs hr
      exact ⟨e', .found hr', hextent⟩
  | ended hr hrest =>
      obtain ⟨e', hr', hextent⟩ := hR.none hs hr
      exact ⟨e', .ended hr' hrest, hextent⟩
  | past hr hrest _ ih =>
      obtain ⟨e', hr', hextent⟩ := hR.none hs hr
      obtain ⟨e'', hmore, hextents⟩ := ih hs
      exact ⟨_, .past hr' hrest hmore, L.andThen hextent hextents⟩

/-! ## Kinds of rules -/

section Over

variable {r r' : RuleRef}

theorem rel_branch {o o' : Option (List Derivation)}
    (h : Option.Rel (List.Forall₂ L.derivation) o o') :
    Option.Rel (Derivation.Over L.derivation r r')
      (o.map fun ds => .branch r (Derivation.totalLength ds) ds)
      (o'.map fun ds => .branch r' (Derivation.totalLength ds) ds) := by
  cases h with
  | none => exact .none
  | some hds =>
      rw [Option.map_some, Option.map_some, Derivation.totalLength_eq_of_forall₂ L.length hds]
      exact .some (.branch _ hds)

theorem rel_leaf (o : Option Nat) :
    Option.Rel (Derivation.Over L.derivation r r') (o.map fun n => .branch r n [])
      (o.map fun n => .branch r' n []) := by
  cases o with
  | none => exact .none
  | some n => exact .some (.branch n .nil)

theorem rel_wrapped {o o' : Option Derivation} (h : Option.Rel L.derivation o o') :
    Option.Rel (Derivation.Over L.derivation r r') (o.map (.wrapped r)) (o'.map (.wrapped r')) := by
  cases h with
  | none => exact .none
  | some hd => exact .some (.wrapped hd)

end Over

theorem Performed.echo (hR : R.Echoes L S R') {r r' : RuleRef} {kind kind' : Kind RuleRef}
    {p : Place} {o : Option Derivation} {e : Extent} (h : R.Performed kind r p o e)
    (hkind : kind.Corresponds S r r' kind') :
    ∃ o' e', R'.Performed kind' r' p o' e' ∧
      Option.Rel (Derivation.Over L.derivation r r') o o' ∧ L.extent e e' := by
  cases hkind with
  | terminal matcher =>
      cases h
      exact ⟨_, _, .terminal, rel_leaf _, L.zero⟩
  | text literal ignoreCase =>
      cases h
      exact ⟨_, _, .text, rel_leaf _, L.zero⟩
  | sequence hparts =>
      cases h with
      | sequence h =>
          obtain ⟨o', e', h', hrel, hextent⟩ := h.echo hR hparts
          exact ⟨_, e', .sequence h', rel_branch hrel, hextent⟩
  | choice hoptions =>
      cases h with
      | choice h =>
          obtain ⟨o', e', h', hrel, hextent⟩ := h.echo hR hoptions
          exact ⟨_, e', .choice h', rel_wrapped hrel, hextent⟩
  | rep least most hbody =>
      cases h with
      | rep h =>
          obtain ⟨o', e', h', hrel, hextent⟩ := h.echo hR hbody
          exact ⟨_, e', .rep h', rel_branch hrel, hextent⟩
  | ahead hbody =>
      cases h with
      | ahead h =>
          obtain ⟨o', e', h', hrel, hextent⟩ := hR h _ hbody
          refine ⟨_, e', .ahead h', ?_, hextent⟩
          cases hrel with
          | none => exact .none
          | some _ => exact .some (.branch 0 .nil)
  | notAhead hbody =>
      cases h with
      | notAhead h =>
          obtain ⟨o', e', h', hrel, hextent⟩ := hR h _ hbody
          refine ⟨_, e', .notAhead h', ?_, hextent⟩
          cases hrel with
          | none => exact .some (.branch 0 .nil)
          | some _ => exact .none
  | upTo hstop =>
      cases h with
      | @upTo _ _ _ n _ h =>
          obtain ⟨e', h', hextent⟩ := h.echo hR hstop
          refine ⟨_, e', .upTo h', ?_, hextent⟩
          split
          · exact .some (.branch n .nil)
          · exact .none
  | ref name htarget =>
      cases h with
      | ref h =>
          obtain ⟨o', e', h', hrel, hextent⟩ := hR h _ htarget
          exact ⟨_, e', .ref h', rel_wrapped hrel, hextent⟩
  | inherited name htarget =>
      cases h with
      | inherited h =>
          obtain ⟨o', e', h', hrel, hextent⟩ := hR h _ htarget
          exact ⟨_, e', .inherited h', rel_wrapped hrel, hextent⟩
  | label hbody =>
      cases h with
      | label h =>
          obtain ⟨o', e', h', hrel, hextent⟩ := hR h _ hbody
          exact ⟨_, e', .label h', rel_wrapped hrel, hextent⟩

end Judgement

/-- The rules of one library are echoed in another one, if each of them is as far as those are that it
refers to. -/
theorem Library.Yields.echoes {lib lib' : Library} {L : Likeness} {S : RuleRef → RuleRef → Prop}
    (step : ∀ {R : Judgement} {r rule p o e r'}, R.Echoes L S lib'.Yields → lib.rule? r = some rule →
      R.Performed rule.kind r p o e → S r r' →
      ∃ o' e', lib'.Yields r' p o' e' ∧ Option.Rel L.derivation o o' ∧ L.extent (e.around p o) e') :
    Judgement.Echoes L S lib.Yields lib'.Yields := by
  intro r p o e hout
  refine Library.Yields.induct (motive := fun r p o e => ∀ r', S r r' →
    ∃ o' e', lib'.Yields r' p o' e' ∧ Option.Rel L.derivation o o' ∧ L.extent e e') ?_ hout
  intro r rule p o e hrule hperformed r' hr
  exact step (fun _ _ _ _ hs s' hs' => hs.2 s' hs') hrule hperformed hr

end Peg
