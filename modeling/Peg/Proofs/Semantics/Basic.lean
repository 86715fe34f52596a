import Peg.Grammar.Basic
import Peg.Proofs.Rule.Matching

/-!
# What rules mean

The meaning of the rules of a library as a relation between a rule, a place of a text and an
outcome, which is a derivation or none. The relation is about the text alone: it knows no cursor,
no limits and no memo. Each kind of rule is explained by a relation over an arbitrary judgement on
the rules that it refers to, and `Library.Yields` ties these together. Along with the outcome goes
the extent of the derivation of the judgement: how deep executions nest in it, how many there are
and how far the matches among them reach.

Main statements: the induction principle `Library.Yields.induct`, and `Library.Yields.unique`, by
which a rule has one outcome at most at a place.
-/

namespace Peg

/-- How far the executions of rules that an outcome takes extend. -/
structure Extent where
  /-- How deep they nest. -/
  height : Nat
  /-- How many there are. -/
  calls : Nat
  /-- The greatest offset at which one of them ends that matches, zero if none does. -/
  reach : Nat

namespace Extent

def zero : Extent := ⟨0, 0, 0⟩

def andThen (a b : Extent) : Extent :=
  ⟨max a.height b.height, a.calls + b.calls, max a.reach b.reach⟩

/-- The execution of a rule at a place around the executions of the rules it refers to. -/
def around (inner : Extent) (p : Place) (outcome : Option Derivation) : Extent :=
  ⟨inner.height + 1, inner.calls + 1,
    outcome.elim inner.reach fun d => max inner.reach (p.offset + d.length)⟩

end Extent

/-- A relation between rules, places, outcomes and the extents of these outcomes. -/
abbrev Judgement := RuleRef → Place → Option Derivation → Extent → Prop

namespace Judgement

/-- All rules match, one after the other, or one fails and with it the whole. -/
inductive All (R : Judgement) : List RuleRef → Place → Option (List Derivation) → Extent → Prop
  | nil {p} : All R [] p (some []) .zero
  | fail {r rs p e} : R r p none e → All R (r :: rs) p none e
  | cons {r rs p d outcome e e'} : R r p (some d) e → All R rs (p.advance d.length) outcome e' →
      All R (r :: rs) p (outcome.map (d :: ·)) (e.andThen e')

/-- The first rule that matches, or none. -/
inductive First (R : Judgement) : List RuleRef → Place → Option Derivation → Extent → Prop
  | nil {p} : First R [] p none .zero
  | found {r rs p d e} : R r p (some d) e → First R (r :: rs) p (some d) e
  | next {r rs p outcome e e'} : R r p none e → First R rs p outcome e' →
      First R (r :: rs) p outcome (e.andThen e')

/-- Further rounds of a rule after `count` of them: as long as it matches something, but no more
than `most`. A failure or the greatest number of rounds ends them, and they fail if there were
fewer than `least`. A match of nothing ends them as well and counts as enough. -/
inductive Repeated (R : Judgement) :
    (count : Nat) → RuleRef → (least : Nat) → (most : Option Nat) → Place →
      Option (List Derivation) → Extent → Prop
  | full {count r least most p} : most = some count →
      Repeated R count r least most p (if least ≤ count then some [] else none) .zero
  | stop {count r least most p e} : most ≠ some count → R r p none e →
      Repeated R count r least most p (if least ≤ count then some [] else none) e
  | empty {count r least most p d e} : most ≠ some count → R r p (some d) e → d.length = 0 →
      Repeated R count r least most p (some [d]) e
  | more {count r least most p d outcome e e'} :
      most ≠ some count → R r p (some d) e → d.length ≠ 0 →
      Repeated R (count + 1) r least most (p.advance d.length) outcome e' →
      Repeated R count r least most p (outcome.map (d :: ·)) (e.andThen e')

/-- The number of bytes up to the place where a rule matches, or up to the end of the text. -/
inductive UpTo (R : Judgement) : Place → RuleRef → Nat → Extent → Prop
  | found {p stop d e} : R stop p (some d) e → UpTo R p stop 0 e
  | ended {p stop e} : R stop p none e → p.rest = [] → UpTo R p stop 0 e
  | past {p stop c rest n e e'} : R stop p none e → p.rest = c :: rest →
      UpTo R (p.past c rest) stop n e' → UpTo R p stop (c.utf8Size + n) (e.andThen e')

/-- The outcome of a kind of rule for the rule `r` of that kind. -/
inductive Performed (R : Judgement) :
    Kind RuleRef → (r : RuleRef) → Place → Option Derivation → Extent → Prop
  | terminal {matcher r p} :
      Performed R (.terminal matcher) r p
        ((matcher.matchAt p.rest).map fun n => .branch r n []) .zero
  | text {literal ignoreCase r p} :
      Performed R (.text literal ignoreCase) r p
        ((literalAt (if ignoreCase then sameLower else (· == ·)) literal p.rest).map
          fun n => .branch r n []) .zero
  | sequence {parts r p outcome e} : All R (parts.map r.sibling) p outcome e →
      Performed R (.sequence parts) r p
        (outcome.map fun ds => .branch r (Derivation.totalLength ds) ds) e
  | choice {options r p outcome e} : First R (options.map r.sibling) p outcome e →
      Performed R (.choice options) r p (outcome.map (.wrapped r)) e
  | rep {body least most r p outcome e} :
      Repeated R 0 (r.sibling body) least most p outcome e →
      Performed R (.rep body least most) r p
        (outcome.map fun ds => .branch r (Derivation.totalLength ds) ds) e
  | ahead {body r p outcome e} : R (r.sibling body) p outcome e →
      Performed R (.ahead body) r p (outcome.map fun _ => .branch r 0 []) e
  | notAhead {body r p outcome e} : R (r.sibling body) p outcome e →
      Performed R (.notAhead body) r p
        (if outcome.isSome then none else some (.branch r 0 [])) e
  | upTo {stop r p n e} : UpTo R p (r.sibling stop) n e →
      Performed R (.upTo stop) r p (if 0 < n then some (.branch r n []) else none) e
  | ref {name target r p outcome e} : R target p outcome e →
      Performed R (.ref name target) r p (outcome.map (.wrapped r)) e
  | inherited {name target r p outcome e} : R target p outcome e →
      Performed R (.inherited name target) r p (outcome.map (.wrapped r)) e
  | label {body r p outcome e} : R (r.sibling body) p outcome e →
      Performed R (.label body) r p (outcome.map (.wrapped r)) e

end Judgement

/-- A rule of the library has an outcome at a place. -/
inductive Library.Yields (lib : Library) : RuleRef → Place → Option Derivation → Extent → Prop
  | intro {r rule p outcome e} : lib.rule? r = some rule →
      Judgement.Performed (Library.Yields lib) rule.kind r p outcome e →
      Library.Yields lib r p outcome (e.around p outcome)

/-- What holds of the outcome of a rule if it holds of the outcomes that this takes, holds of all.
-/
theorem Library.Yields.induct {lib : Library} {motive : Judgement}
    (step : ∀ {r rule p outcome e}, lib.rule? r = some rule →
      Judgement.Performed (fun r p o e => lib.Yields r p o e ∧ motive r p o e)
        rule.kind r p outcome e → motive r p outcome (e.around p outcome))
    {r : RuleRef} {p : Place} {outcome : Option Derivation} {e : Extent}
    (h : lib.Yields r p outcome e) : motive r p outcome e := by
  let R : Judgement := fun r p o e => lib.Yields r p o e ∧ motive r p o e
  refine @Library.Yields.rec lib (fun r p o e _ => motive r p o e)
    (fun kind r p o e _ => Judgement.Performed R kind r p o e)
    (fun rs p o e _ => Judgement.All R rs p o e)
    (fun rs p o e _ => Judgement.First R rs p o e)
    (fun count r least most p o e _ => Judgement.Repeated R count r least most p o e)
    (fun p stop n e _ => Judgement.UpTo R p stop n e)
    ?_ ?_ ?_ ?_ ?_ ?_ ?_ ?_ ?_ ?_ ?_ ?_ ?_ ?_ ?_ ?_ ?_ ?_ ?_ ?_ ?_ ?_ ?_ ?_ ?_ r p outcome e h
  · exact fun hr _ ih => step hr ih
  -- the kinds of rules
  · exact .terminal
  · exact .text
  · exact fun _ ih => .sequence ih
  · exact fun _ ih => .choice ih
  · exact fun _ ih => .rep ih
  · exact fun h ih => .ahead ⟨h, ih⟩
  · exact fun h ih => .notAhead ⟨h, ih⟩
  · exact fun _ ih => .upTo ih
  · exact fun h ih => .ref ⟨h, ih⟩
  · exact fun h ih => .inherited ⟨h, ih⟩
  · exact fun h ih => .label ⟨h, ih⟩
  -- rules in a row
  · exact .nil
  · exact fun h ih => .fail ⟨h, ih⟩
  · exact fun h _ ih ih' => .cons ⟨h, ih⟩ ih'
  -- the first of some rules
  · exact .nil
  · exact fun h ih => .found ⟨h, ih⟩
  · exact fun h _ ih ih' => .next ⟨h, ih⟩ ih'
  -- rounds of a rule
  · exact fun hmost => .full hmost
  · exact fun hmost h ih => .stop hmost ⟨h, ih⟩
  · exact fun hmost h hlen ih => .empty hmost ⟨h, ih⟩ hlen
  · exact fun hmost h hlen _ ih ih' => .more hmost ⟨h, ih⟩ hlen ih'
  -- characters up to a rule
  · exact fun h ih => .found ⟨h, ih⟩
  · exact fun h hrest ih => .ended ⟨h, ih⟩ hrest
  · exact fun h hrest _ ih ih' => .past ⟨h, ih⟩ hrest ih'

/-! ## Matches cover whole characters -/

namespace Judgement

/-- Matches take up whole characters of the text from the place on. -/
def Covers (R : Judgement) : Prop :=
  ∀ ⦃r p d e⦄, R r p (some d) e → Splits d.length p.rest

variable {R : Judgement}

theorem All.covers (hR : R.Covers) {rs : List RuleRef} {p : Place}
    {outcome : Option (List Derivation)} {e : Extent} (h : R.All rs p outcome e) :
    ∀ ds ∈ outcome, Splits (Derivation.totalLength ds) p.rest := by
  induction h with
  | nil =>
      intro ds hds
      cases hds
      exact Splits.zero _
  | fail _ =>
      intro ds hds
      cases hds
  | cons hd _ ih =>
      intro ds hds
      obtain ⟨tail, htail, rfl⟩ := Option.map_eq_some_iff.1 hds
      exact (hR hd).add (ih tail htail)

theorem First.covers (hR : R.Covers) {rs : List RuleRef} {p : Place}
    {outcome : Option Derivation} {e : Extent} (h : R.First rs p outcome e) :
    ∀ d ∈ outcome, Splits d.length p.rest := by
  induction h with
  | nil =>
      intro d hd
      cases hd
  | found hfound =>
      intro d hd
      cases hd
      exact hR hfound
  | next _ _ ih => exact ih

theorem splits_of_mem_enough {least count : Nat} {text : List Char} :
    ∀ ds ∈ if least ≤ count then some [] else none, Splits (Derivation.totalLength ds) text := by
  intro ds hds
  rw [Option.mem_def] at hds
  split at hds
  · cases hds
    exact Splits.zero text
  · cases hds

theorem Repeated.covers (hR : R.Covers) {count least : Nat} {most : Option Nat} {r : RuleRef}
    {p : Place} {outcome : Option (List Derivation)} {e : Extent}
    (h : R.Repeated count r least most p outcome e) :
    ∀ ds ∈ outcome, Splits (Derivation.totalLength ds) p.rest := by
  induction h with
  | full _ | stop _ _ => exact splits_of_mem_enough
  | empty _ hd _ =>
      intro ds hds
      cases hds
      exact hR hd
  | more _ hd _ _ ih =>
      intro ds hds
      obtain ⟨tail, htail, rfl⟩ := Option.map_eq_some_iff.1 hds
      exact (hR hd).add (ih tail htail)

theorem UpTo.covers {stop : RuleRef} {p : Place} {n : Nat} {e : Extent}
    (h : R.UpTo p stop n e) : Splits n p.rest := by
  induction h with
  | found _ | ended _ _ => exact Splits.zero _
  | past _ hrest _ ih =>
      rw [hrest]
      exact ih.cons _

theorem Performed.covers (hR : R.Covers) {kind : Kind RuleRef} {r : RuleRef} {p : Place}
    {outcome : Option Derivation} {e : Extent} (h : R.Performed kind r p outcome e) :
    ∀ d ∈ outcome, Splits d.length p.rest := by
  intro d hd
  cases h with
  | terminal =>
      obtain ⟨n, hn, rfl⟩ := Option.map_eq_some_iff.1 hd
      exact Matcher.matchAt_splits hn
  | text =>
      obtain ⟨n, hn, rfl⟩ := Option.map_eq_some_iff.1 hd
      exact literalAt_splits hn
  | sequence h =>
      obtain ⟨ds, hds, rfl⟩ := Option.map_eq_some_iff.1 hd
      exact h.covers hR ds hds
  | choice h =>
      obtain ⟨inner, hinner, rfl⟩ := Option.map_eq_some_iff.1 hd
      exact h.covers hR inner hinner
  | rep h =>
      obtain ⟨ds, hds, rfl⟩ := Option.map_eq_some_iff.1 hd
      exact h.covers hR ds hds
  | ahead _ =>
      obtain ⟨_, _, rfl⟩ := Option.map_eq_some_iff.1 hd
      exact Splits.zero _
  | notAhead _ =>
      rw [Option.mem_def] at hd
      split at hd
      · cases hd
      · cases hd
        exact Splits.zero _
  | upTo h =>
      rw [Option.mem_def] at hd
      split at hd
      · cases hd
        exact h.covers
      · cases hd
  | ref h | inherited h | label h =>
      obtain ⟨inner, rfl, rfl⟩ := Option.map_eq_some_iff.1 hd
      change Splits inner.length p.rest
      exact hR h

end Judgement

theorem Library.Yields.covers {lib : Library} : Judgement.Covers lib.Yields := by
  intro r p d e h
  have hall : ∀ d' ∈ some d, Splits d'.length p.rest := by
    refine Library.Yields.induct (motive := fun _ p o _ => ∀ d ∈ o, Splits d.length p.rest) ?_ h
    intro r rule p outcome e _ hk
    exact hk.covers fun _ _ _ _ hd => hd.2 _ rfl
  exact hall d rfl

theorem Library.Yields.end_le_reach {lib : Library} {r : RuleRef} {p : Place} {d : Derivation}
    {e : Extent} (h : lib.Yields r p (some d) e) : p.offset + d.length ≤ e.reach := by
  cases h with
  | intro _ _ => exact Nat.le_max_right _ _

theorem Library.Yields.height_pos {lib : Library} {r : RuleRef} {p : Place}
    {outcome : Option Derivation} {e : Extent} (h : lib.Yields r p outcome e) : 0 < e.height := by
  cases h with
  | intro _ _ => exact Nat.succ_pos _

/-! ## There is one outcome at most -/

namespace Judgement

/-- A judgement leaves another one no choice of outcomes and extents. -/
def Determines (R R' : Judgement) : Prop :=
  ∀ ⦃r p o e o' e'⦄, R r p o e → R' r p o' e' → o = o' ∧ e = e'

variable {R R' : Judgement}

theorem All.unique (hR : R.Determines R') {rs : List RuleRef} {p : Place}
    {o o' : Option (List Derivation)} {e e' : Extent} (h : R.All rs p o e)
    (h' : R'.All rs p o' e') : o = o' ∧ e = e' := by
  induction h generalizing o' e' with
  | nil =>
      cases h'
      exact ⟨rfl, rfl⟩
  | fail hr =>
      cases h' with
      | fail hr' => exact ⟨rfl, (hR hr hr').2⟩
      | cons hr' _ => cases (hR hr hr').1
  | cons hr _ ih =>
      cases h' with
      | fail hr' => cases (hR hr hr').1
      | cons hr' hrs' =>
          obtain ⟨hd, rfl⟩ := hR hr hr'
          cases hd
          obtain ⟨rfl, rfl⟩ := ih hrs'
          exact ⟨rfl, rfl⟩

theorem First.unique (hR : R.Determines R') {rs : List RuleRef} {p : Place}
    {o o' : Option Derivation} {e e' : Extent} (h : R.First rs p o e)
    (h' : R'.First rs p o' e') : o = o' ∧ e = e' := by
  induction h generalizing o' e' with
  | nil =>
      cases h'
      exact ⟨rfl, rfl⟩
  | found hr =>
      cases h' with
      | found hr' => exact hR hr hr'
      | next hr' _ => cases (hR hr hr').1
  | next hr _ ih =>
      cases h' with
      | found hr' => cases (hR hr hr').1
      | next hr' hrs' =>
          obtain ⟨-, rfl⟩ := hR hr hr'
          obtain ⟨rfl, rfl⟩ := ih hrs'
          exact ⟨rfl, rfl⟩

theorem Repeated.unique (hR : R.Determines R') {count least : Nat} {most : Option Nat}
    {r : RuleRef} {p : Place} {o o' : Option (List Derivation)} {e e' : Extent}
    (h : R.Repeated count r least most p o e) (h' : R'.Repeated count r least most p o' e') :
    o = o' ∧ e = e' := by
  induction h generalizing o' e' with
  | full hmost =>
      cases h' with
      | full _ => exact ⟨rfl, rfl⟩
      | stop hmost' _ | empty hmost' _ _ | more hmost' _ _ _ => exact absurd hmost hmost'
  | stop hmost hr =>
      cases h' with
      | full hmost' => exact absurd hmost' hmost
      | stop _ hr' => exact ⟨rfl, (hR hr hr').2⟩
      | empty _ hr' _ | more _ hr' _ _ => cases (hR hr hr').1
  | empty hmost hr hlen =>
      cases h' with
      | full hmost' => exact absurd hmost' hmost
      | stop _ hr' => cases (hR hr hr').1
      | empty _ hr' _ =>
          obtain ⟨hd, rfl⟩ := hR hr hr'
          cases hd
          exact ⟨rfl, rfl⟩
      | more _ hr' hlen' _ =>
          obtain ⟨hd, -⟩ := hR hr hr'
          cases hd
          exact absurd hlen hlen'
  | more hmost hr hlen _ ih =>
      cases h' with
      | full hmost' => exact absurd hmost' hmost
      | stop _ hr' => cases (hR hr hr').1
      | empty _ hr' hlen' =>
          obtain ⟨hd, -⟩ := hR hr hr'
          cases hd
          exact absurd hlen' hlen
      | more _ hr' _ hrs' =>
          obtain ⟨hd, rfl⟩ := hR hr hr'
          cases hd
          obtain ⟨rfl, rfl⟩ := ih hrs'
          exact ⟨rfl, rfl⟩

theorem UpTo.unique (hR : R.Determines R') {stop : RuleRef} {p : Place} {n n' : Nat}
    {e e' : Extent} (h : R.UpTo p stop n e) (h' : R'.UpTo p stop n' e') : n = n' ∧ e = e' := by
  induction h generalizing n' e' with
  | found hr =>
      cases h' with
      | found hr' => exact ⟨rfl, (hR hr hr').2⟩
      | ended hr' _ | past hr' _ _ => cases (hR hr hr').1
  | ended hr hrest =>
      cases h' with
      | found hr' => cases (hR hr hr').1
      | ended hr' _ => exact ⟨rfl, (hR hr hr').2⟩
      | past _ hrest' _ =>
          rw [hrest] at hrest'
          cases hrest'
  | past hr hrest _ ih =>
      cases h' with
      | found hr' => cases (hR hr hr').1
      | ended _ hrest' =>
          rw [hrest] at hrest'
          cases hrest'
      | past hr' hrest' hrs' =>
          rw [hrest] at hrest'
          cases hrest'
          obtain ⟨-, rfl⟩ := hR hr hr'
          obtain ⟨rfl, rfl⟩ := ih hrs'
          exact ⟨rfl, rfl⟩

theorem Performed.unique (hR : R.Determines R') {kind : Kind RuleRef} {r : RuleRef} {p : Place}
    {o o' : Option Derivation} {e e' : Extent} (h : R.Performed kind r p o e)
    (h' : R'.Performed kind r p o' e') : o = o' ∧ e = e' := by
  cases h with
  | terminal | text =>
      cases h'
      exact ⟨rfl, rfl⟩
  | sequence h =>
      cases h' with
      | sequence h' =>
          obtain ⟨rfl, rfl⟩ := h.unique hR h'
          exact ⟨rfl, rfl⟩
  | choice h =>
      cases h' with
      | choice h' =>
          obtain ⟨rfl, rfl⟩ := h.unique hR h'
          exact ⟨rfl, rfl⟩
  | rep h =>
      cases h' with
      | rep h' =>
          obtain ⟨rfl, rfl⟩ := h.unique hR h'
          exact ⟨rfl, rfl⟩
  | upTo h =>
      cases h' with
      | upTo h' =>
          obtain ⟨rfl, rfl⟩ := h.unique hR h'
          exact ⟨rfl, rfl⟩
  | ahead h | notAhead h | ref h | inherited h | label h =>
      cases h'
      rename_i h'
      obtain ⟨rfl, rfl⟩ := hR h h'
      exact ⟨rfl, rfl⟩

end Judgement

/-- The outcome of a rule at a place and its extent are determined. -/
theorem Library.Yields.unique {lib : Library} : Judgement.Determines lib.Yields lib.Yields := by
  intro r p o e o' e' h h'
  refine Library.Yields.induct
    (motive := fun r p o e => ∀ o' e', lib.Yields r p o' e' → o = o' ∧ e = e') ?_ h o' e' h'
  intro r rule p o e hr hk o' e' h'
  cases h' with
  | intro hr' hk' =>
      cases hr.symm.trans hr'
      obtain ⟨rfl, rfl⟩ := hk.unique (fun _ _ _ _ _ _ h h' => h.2 _ _ h') hk'
      exact ⟨rfl, rfl⟩

end Peg
