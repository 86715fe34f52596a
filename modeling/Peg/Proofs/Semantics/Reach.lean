import Peg.Proofs.Semantics.Adequacy

/-!
# Where matches reach to

The executions that an outcome takes begin at places of the text, and matches take up whole
characters, so the furthest offset that they reach is that of a place again. A run that exceeds no
limit gets as far as the outcome reaches, with a memo or without, and so do all runs from the same
place that exceed none. Main statements: `Library.Yields.isOffset_reach` and
`Library.furthest_eq_of_unlimited`.
-/

namespace Peg

/-- The offset is that of a place of the text. -/
def IsOffset (text : List Char) (offset : Nat) : Prop := ∃ p : Place, p.IsIn text ∧ p.offset = offset

namespace IsOffset

variable {text : List Char} {m n : Nat}

theorem zero (text : List Char) : IsOffset text 0 := ⟨.start text, Place.isIn_start text, rfl⟩

theorem of_isIn {p : Place} (h : p.IsIn text) : IsOffset text p.offset := ⟨p, h, rfl⟩

theorem max (hm : IsOffset text m) (hn : IsOffset text n) : IsOffset text (max m n) := by
  rcases Nat.le_total m n with hle | hle
  · rw [Nat.max_eq_right hle]
    exact hn
  · rw [Nat.max_eq_left hle]
    exact hm

end IsOffset

namespace Judgement

/-- From every place of the text on, the executions reach a place of the text. -/
structure Reaches (R : Judgement) (text : List Char) : Prop where
  covers : R.Covers
  reach : ∀ ⦃r p outcome e⦄, R r p outcome e → p.IsIn text → IsOffset text e.reach

variable {R : Judgement} {text : List Char} {p : Place} {e : Extent}

theorem All.isOffset (hR : R.Reaches text) {rs : List RuleRef}
    {outcome : Option (List Derivation)} (h : R.All rs p outcome e) (hp : p.IsIn text) :
    IsOffset text e.reach := by
  induction h with
  | nil => exact .zero text
  | fail hr => exact hR.reach hr hp
  | cons hr _ ih => exact (hR.reach hr hp).max (ih (hp.advance (hR.covers hr)))

theorem First.isOffset (hR : R.Reaches text) {rs : List RuleRef} {outcome : Option Derivation}
    (h : R.First rs p outcome e) (hp : p.IsIn text) : IsOffset text e.reach := by
  induction h with
  | nil => exact .zero text
  | found hr => exact hR.reach hr hp
  | next hr _ ih => exact (hR.reach hr hp).max (ih hp)

theorem Repeated.isOffset (hR : R.Reaches text) {count least : Nat} {most : Option Nat}
    {r : RuleRef} {outcome : Option (List Derivation)}
    (h : R.Repeated count r least most p outcome e) (hp : p.IsIn text) :
    IsOffset text e.reach := by
  induction h with
  | full _ => exact .zero text
  | stop _ hr | empty _ hr _ => exact hR.reach hr hp
  | more _ hr _ _ ih => exact (hR.reach hr hp).max (ih (hp.advance (hR.covers hr)))

theorem UpTo.isOffset (hR : R.Reaches text) {stop : RuleRef} {n : Nat} (h : R.UpTo p stop n e)
    (hp : p.IsIn text) : IsOffset text e.reach := by
  induction h with
  | found hr | ended hr _ => exact hR.reach hr hp
  | past hr hrest _ ih => exact (hR.reach hr hp).max (ih (hp.past hrest))

theorem Performed.isOffset (hR : R.Reaches text) {kind : Kind RuleRef} {r : RuleRef}
    {outcome : Option Derivation} (h : R.Performed kind r p outcome e) (hp : p.IsIn text) :
    IsOffset text e.reach := by
  cases h with
  | terminal | text => exact .zero text
  | sequence h => exact h.isOffset hR hp
  | choice h => exact h.isOffset hR hp
  | rep h => exact h.isOffset hR hp
  | upTo h => exact h.isOffset hR hp
  | ahead h | notAhead h | ref h | inherited h | label h => exact hR.reach h hp

end Judgement

namespace Library

variable {lib : Library} {r : RuleRef} {s t : State}

/-- What an outcome takes reaches a place of the text. -/
theorem Yields.isOffset_reach {text : List Char} {p : Place} {outcome : Option Derivation}
    {e : Extent} (h : lib.Yields r p outcome e) : p.IsIn text → IsOffset text e.reach := by
  refine h.induct (motive := fun _ p _ e => p.IsIn text → IsOffset text e.reach) ?_
  intro r rule p outcome e _ hk hp
  let R : Judgement := fun r p o e => lib.Yields r p o e ∧ (p.IsIn text → IsOffset text e.reach)
  have hcovers : R.Covers := fun _ _ _ _ hd => hd.1.covers
  have hR : R.Reaches text := ⟨hcovers, fun _ _ _ _ hr => hr.2⟩
  have hinside := Judgement.Performed.isOffset hR hk hp
  cases outcome with
  | none => exact hinside
  | some d => exact hinside.max (.of_isIn (hp.advance (hk.covers hcovers d rfl)))

/-- Runs from the same place that exceed no limit find the same outcome and get as far as it reaches,
whatever their limits are and whether or not they have a memo. -/
theorem furthest_eq_of_unlimited (hclosed : lib.Closed) (hr : lib.Knows r) (hs : lib.Ready s)
    (ht : lib.Ready t) (hplace : t.place = s.place)
    (hfurthest : t.cursor.furthest = s.cursor.furthest)
    (hunlimited : (lib.run r s).2.cursor.reachedLimit = false)
    (hunlimited' : (lib.run r t).2.cursor.reachedLimit = false) :
    (lib.run r t).1 = (lib.run r s).1 ∧
      (lib.run r t).2.cursor.furthest = (lib.run r s).2.cursor.furthest := by
  obtain ⟨e, he, hspends⟩ := (run_follows hclosed hr hs).leads.means hunlimited
  obtain ⟨e', he', hspends'⟩ := (run_follows hclosed hr ht).leads.means hunlimited'
  rw [hplace] at he'
  obtain ⟨hout, rfl⟩ := Yields.unique he' he
  refine ⟨hout, ?_⟩
  rw [hspends.furthest, hspends'.furthest, hfurthest]

end Library

end Peg
