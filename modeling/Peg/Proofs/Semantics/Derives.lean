import Peg.Derivation.Reading
import Peg.Proofs.Semantics.Basic

/-!
# Well-formed derivations

What a derivation of a rule is made of: the derivations of the parts that its kind asks for, which
follow one another in the text, and a length that is the number of bytes they take up together.
Unlike `Library.Yields` this says nothing about what else could have matched, so it holds also of
the matches of runs in which some execution was refused. Main statements:
`Library.Yields.derives` and `Library.Derives.covers`.
-/

namespace Peg

/-- A relation between rules, the places where they match and the derivations of the matches. -/
abbrev Derivability := RuleRef → Place → Derivation → Prop

namespace Derivability

/-- Derivations of rules, each from the place where the one before it ends. -/
inductive Row (D : Derivability) : List RuleRef → Place → List Derivation → Prop
  | nil {p} : Row D [] p []
  | cons {r rs p d ds} : D r p d → Row D rs (p.advance d.length) ds → Row D (r :: rs) p (d :: ds)

/-- The derivations of a kind of rule for the rule `r` of that kind. -/
inductive Formed (D : Derivability) : Kind RuleRef → (r : RuleRef) → Place → Derivation → Prop
  | terminal {matcher r p n} : matcher.matchAt p.rest = some n →
      Formed D (.terminal matcher) r p (.branch r n [])
  | text {literal ignoreCase r p n} :
      literalAt (if ignoreCase then sameLower else (· == ·)) literal p.rest = some n →
      Formed D (.text literal ignoreCase) r p (.branch r n [])
  | sequence {parts r p ds} : Row D (parts.map r.sibling) p ds →
      Formed D (.sequence parts) r p (.branch r (Derivation.totalLength ds) ds)
  | choice {options option r p d} : option ∈ options → D (r.sibling option) p d →
      Formed D (.choice options) r p (.wrapped r d)
  | rep {body least most r p ds} : Row D (List.replicate ds.length (r.sibling body)) p ds →
      (∀ bound ∈ most, ds.length ≤ bound) →
      (least ≤ ds.length ∨ ∃ d ∈ ds.getLast?, d.length = 0) →
      Formed D (.rep body least most) r p (.branch r (Derivation.totalLength ds) ds)
  | ahead {body r p} : Formed D (.ahead body) r p (.branch r 0 [])
  | notAhead {body r p} : Formed D (.notAhead body) r p (.branch r 0 [])
  | upTo {stop r p n} : 0 < n → Splits n p.rest → Formed D (.upTo stop) r p (.branch r n [])
  | ref {name target r p d} : D target p d → Formed D (.ref name target) r p (.wrapped r d)
  | inherited {name target r p d} : D target p d →
      Formed D (.inherited name target) r p (.wrapped r d)
  | label {body r p d} : D (r.sibling body) p d → Formed D (.label body) r p (.wrapped r d)

end Derivability

/-- A derivation of a rule of the library from a place on. -/
inductive Library.Derives (lib : Library) : RuleRef → Place → Derivation → Prop
  | intro {r rule p d} : lib.rule? r = some rule →
      Derivability.Formed (Library.Derives lib) rule.kind r p d → Library.Derives lib r p d

theorem Library.Derives.induct {lib : Library} {motive : Derivability}
    (step : ∀ {r rule p d}, lib.rule? r = some rule →
      Derivability.Formed (fun r p d => lib.Derives r p d ∧ motive r p d) rule.kind r p d →
      motive r p d)
    {r : RuleRef} {p : Place} {d : Derivation} (h : lib.Derives r p d) : motive r p d := by
  let D : Derivability := fun r p d => lib.Derives r p d ∧ motive r p d
  refine @Library.Derives.rec lib (fun r p d _ => motive r p d)
    (fun kind r p d _ => Derivability.Formed D kind r p d)
    (fun rs p ds _ => Derivability.Row D rs p ds)
    ?_ ?_ ?_ ?_ ?_ ?_ ?_ ?_ ?_ ?_ ?_ ?_ ?_ ?_ r p d h
  · exact fun hr _ ih => step hr ih
  -- the kinds of rules
  · exact .terminal
  · exact .text
  · exact fun _ ih => .sequence ih
  · exact fun hoption h ih => .choice hoption ⟨h, ih⟩
  · exact fun _ hmost hleast ih => .rep ih hmost hleast
  · exact .ahead
  · exact .notAhead
  · exact .upTo
  · exact fun h ih => .ref ⟨h, ih⟩
  · exact fun h ih => .inherited ⟨h, ih⟩
  · exact fun h ih => .label ⟨h, ih⟩
  -- rules in a row
  · exact .nil
  · exact fun h _ ih ih' => .cons ⟨h, ih⟩ ih'

/-! ## What the relations over outcomes say of derivations -/

/-- The matches that a judgement speaks of have derivations. -/
def Judgement.Grants (R : Judgement) (D : Derivability) : Prop :=
  ∀ ⦃r p d e⦄, R r p (some d) e → D r p d

namespace Judgement

variable {R : Judgement} {D : Derivability}

theorem All.row (hR : R.Grants D) {rs : List RuleRef} {p : Place}
    {outcome : Option (List Derivation)} {e : Extent} (h : R.All rs p outcome e) :
    ∀ ds ∈ outcome, D.Row rs p ds := by
  induction h with
  | nil =>
      intro ds hds
      cases hds
      exact .nil
  | fail _ =>
      intro ds hds
      cases hds
  | cons hd _ ih =>
      intro ds hds
      obtain ⟨tail, htail, rfl⟩ := Option.map_eq_some_iff.1 hds
      exact .cons (hR hd) (ih tail htail)

theorem First.exists_option (hR : R.Grants D) {rs : List RuleRef} {p : Place}
    {outcome : Option Derivation} {e : Extent} (h : R.First rs p outcome e) :
    ∀ d ∈ outcome, ∃ r ∈ rs, D r p d := by
  induction h with
  | nil =>
      intro d hd
      cases hd
  | found hfound =>
      intro d hd
      cases hd
      exact ⟨_, List.mem_cons_self, hR hfound⟩
  | next _ _ ih =>
      intro d hd
      obtain ⟨r, hr, hderives⟩ := ih d hd
      exact ⟨r, List.mem_cons_of_mem _ hr, hderives⟩

theorem lt_of_ne_most {most : Option Nat} {count : Nat} (hmost : most ≠ some count)
    (hcount : ∀ bound ∈ most, count ≤ bound) : ∀ bound ∈ most, count < bound := by
  intro bound hbound
  have hle := hcount bound hbound
  have hne : bound ≠ count := fun heq => hmost (heq ▸ hbound)
  omega

theorem Repeated.rounds (hR : R.Grants D) {count least : Nat} {most : Option Nat} {r : RuleRef}
    {p : Place} {outcome : Option (List Derivation)} {e : Extent}
    (h : R.Repeated count r least most p outcome e) (hcount : ∀ bound ∈ most, count ≤ bound) :
    ∀ ds ∈ outcome, D.Row (List.replicate ds.length r) p ds ∧
      (∀ bound ∈ most, count + ds.length ≤ bound) ∧
      (least ≤ count + ds.length ∨ ∃ d ∈ ds.getLast?, d.length = 0) := by
  induction h with
  | full _ | stop _ _ =>
      intro ds hds
      rw [Option.mem_def] at hds
      split at hds
      · next henough =>
          cases hds
          exact ⟨.nil, hcount, .inl henough⟩
      · cases hds
  | @empty count r least most p d e hmost hd hzero =>
      intro ds hds
      cases hds
      exact ⟨.cons (hR hd) .nil, lt_of_ne_most hmost hcount, .inr ⟨d, rfl, hzero⟩⟩
  | @more count r least most p d outcome e e' hmost hd _ _ ih =>
      intro ds hds
      obtain ⟨tail, htail, rfl⟩ := Option.map_eq_some_iff.1 hds
      obtain ⟨hrow, hbounds, henough⟩ := ih (lt_of_ne_most hmost hcount) tail htail
      refine ⟨.cons (hR hd) hrow, fun bound hbound => ?_, henough.imp (fun hle => ?_) ?_⟩
      · have hle := hbounds bound hbound
        simp only [List.length_cons]
        omega
      · simp only [List.length_cons]
        omega
      · rintro ⟨last, hlast, hzero⟩
        refine ⟨last, ?_, hzero⟩
        rw [Option.mem_def] at hlast ⊢
        simp [List.getLast?_cons, hlast]

theorem Performed.formed (hR : R.Grants D) {kind : Kind RuleRef} {r : RuleRef} {p : Place}
    {outcome : Option Derivation} {e : Extent}
    (h : R.Performed kind r p outcome e) : ∀ d ∈ outcome, D.Formed kind r p d := by
  intro d hd
  cases h with
  | terminal =>
      obtain ⟨n, hn, rfl⟩ := Option.map_eq_some_iff.1 hd
      exact .terminal hn
  | text =>
      obtain ⟨n, hn, rfl⟩ := Option.map_eq_some_iff.1 hd
      exact .text hn
  | sequence h =>
      obtain ⟨ds, hds, rfl⟩ := Option.map_eq_some_iff.1 hd
      exact .sequence (h.row hR ds hds)
  | choice h =>
      obtain ⟨inner, hinner, rfl⟩ := Option.map_eq_some_iff.1 hd
      obtain ⟨option, hoption, hderives⟩ := h.exists_option hR inner hinner
      obtain ⟨i, hi, rfl⟩ := List.mem_map.1 hoption
      exact .choice hi hderives
  | rep h =>
      obtain ⟨ds, hds, rfl⟩ := Option.map_eq_some_iff.1 hd
      obtain ⟨hrow, hbounds, henough⟩ := h.rounds hR (fun bound _ => Nat.zero_le bound) ds hds
      simp only [Nat.zero_add] at hbounds henough
      exact .rep hrow hbounds henough
  | ahead _ =>
      obtain ⟨_, _, rfl⟩ := Option.map_eq_some_iff.1 hd
      exact .ahead
  | notAhead _ =>
      rw [Option.mem_def] at hd
      split at hd
      · cases hd
      · cases hd
        exact .notAhead
  | upTo h =>
      rw [Option.mem_def] at hd
      split at hd
      · next hpos =>
          cases hd
          exact .upTo hpos h.covers
      · cases hd
  | ref h =>
      obtain ⟨inner, rfl, rfl⟩ := Option.map_eq_some_iff.1 hd
      exact .ref (hR h)
  | inherited h =>
      obtain ⟨inner, rfl, rfl⟩ := Option.map_eq_some_iff.1 hd
      exact .inherited (hR h)
  | label h =>
      obtain ⟨inner, rfl, rfl⟩ := Option.map_eq_some_iff.1 hd
      exact .label (hR h)

end Judgement

/-- What a rule yields is a derivation of it. -/
theorem Library.Yields.derives {lib : Library} : Judgement.Grants lib.Yields lib.Derives := by
  intro r p d e h
  have hall : ∀ d' ∈ some d, lib.Derives r p d' := by
    refine Library.Yields.induct (motive := fun r p o _ => ∀ d ∈ o, lib.Derives r p d) ?_ h
    intro r rule p outcome e hrule hk d hd
    exact .intro hrule (hk.formed (fun _ _ _ _ h => h.2 _ rfl) d hd)
  exact hall d rfl

/-! ## Derivations cover whole characters -/

namespace Derivability

/-- Derivations take up whole characters of the text from the place on. -/
def Covers (D : Derivability) : Prop := ∀ ⦃r p d⦄, D r p d → Splits d.length p.rest

variable {D : Derivability} {r : RuleRef} {rs : List RuleRef} {p : Place} {d : Derivation}
  {ds : List Derivation}

theorem Row.covers (hD : D.Covers) (h : D.Row rs p ds) :
    Splits (Derivation.totalLength ds) p.rest := by
  induction h with
  | nil => exact Splits.zero _
  | cons hd _ ih => exact (hD hd).add ih

theorem Formed.covers (hD : D.Covers) {kind : Kind RuleRef} (h : D.Formed kind r p d) :
    Splits d.length p.rest := by
  cases h with
  | terminal hn => exact Matcher.matchAt_splits hn
  | text hn => exact literalAt_splits hn
  | sequence hrow => exact hrow.covers hD
  | rep hrow _ _ => exact hrow.covers hD
  | ahead | notAhead => exact Splits.zero _
  | upTo _ hn => exact hn
  | choice _ h | ref h | inherited h | label h =>
      have hinner := hD h
      exact hinner

theorem Row.wrapsAll {isWrapper : RuleRef → Bool}
    (hD : ∀ {r p d}, D r p d → d.Wraps isWrapper) (h : D.Row rs p ds) :
    Derivation.WrapsAll isWrapper ds := by
  induction h with
  | nil => exact trivial
  | cons hd _ ih => exact ⟨hD hd, ih⟩

theorem Formed.wraps {isWrapper : RuleRef → Bool}
    (hD : ∀ {r p d}, D r p d → d.Wraps isWrapper) {kind : Kind RuleRef}
    (hkind : isWrapper r = kind.isWrapper) (h : D.Formed kind r p d) : d.Wraps isWrapper := by
  cases h with
  | terminal _ | text _ | ahead | notAhead | upTo _ _ => exact ⟨hkind, trivial⟩
  | sequence hrow => exact ⟨hkind, hrow.wrapsAll hD⟩
  | rep hrow _ _ => exact ⟨hkind, hrow.wrapsAll hD⟩
  | choice _ h => exact ⟨hkind, hD h⟩
  | ref h | inherited h | label h => exact ⟨hkind, hD h⟩

end Derivability

namespace Library.Derives

variable {lib : Library} {r : RuleRef} {p : Place} {d : Derivation}

theorem covers : Derivability.Covers lib.Derives := by
  intro r p d h
  refine h.induct (motive := fun _ p d => Splits d.length p.rest) ?_
  intro r rule p d _ hk
  exact hk.covers fun _ _ _ hd => hd.2

theorem wraps (h : lib.Derives r p d) : d.Wraps lib.isWrapper := by
  refine h.induct (motive := fun _ _ d => d.Wraps lib.isWrapper) ?_
  intro r rule p d hrule hk
  refine hk.wraps (fun hd => hd.2) ?_
  simp [Library.isWrapper, hrule]

end Library.Derives

end Peg
