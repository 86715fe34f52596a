import Mathlib.Logic.Equiv.Defs
import Peg.Proofs.Engine.Step

/-!
# Runs under other numbers and further on

Rules see nothing of a text but what is still unread, and offsets and the numbers of rules are only
kept, compared and added to. So when the rules of a library get other numbers, and the text before
the place gets longer, the run of a rule and the run of its translation keep in step: what the second
one finds is the translation of what the first one finds, limits and memo included. Main statement:
`Library.exec_mirrored`.
-/

namespace Peg

/-! ## Rules under other numbers -/

def Kind.renumber {τ τ' : Type} (number : Nat → Nat) (target : τ → τ') : Kind τ → Kind τ'
  | .terminal matcher => .terminal matcher
  | .text literal ignoreCase => .text literal ignoreCase
  | .sequence parts => .sequence (parts.map number)
  | .choice options => .choice (options.map number)
  | .rep body least most => .rep (number body) least most
  | .ahead body => .ahead (number body)
  | .notAhead body => .notAhead (number body)
  | .upTo stop => .upTo (number stop)
  | .ref name r => .ref name (target r)
  | .inherited name r => .inherited name (target r)
  | .label body => .label (number body)

def Rule.renumber {τ τ' : Type} (number : Nat → Nat) (target : τ → τ') (rule : Rule τ) : Rule τ' :=
  { kind := rule.kind.renumber number target, name := rule.name, label := rule.label,
    extension := rule.extension }

/-- Other numbers for the rules of every grammar, and how many bytes there are more before the
place. -/
structure Translation where
  numbers : Nat → Equiv.Perm Nat
  bytes : Nat

namespace Translation

variable (θ : Translation)

def rule (r : RuleRef) : RuleRef := ⟨r.grammar, θ.numbers r.grammar r.rule⟩

def place (p : Place) : Place := { p with offset := p.offset + θ.bytes }

mutual

def derivation : Derivation → Derivation
  | .branch r n parts => .branch (θ.rule r) n (derivations parts)
  | .wrapped r inner => .wrapped (θ.rule r) (derivation inner)

def derivations : List Derivation → List Derivation
  | [] => []
  | d :: ds => derivation d :: derivations ds

end

theorem rule_inj {r r' : RuleRef} : θ.rule r = θ.rule r' ↔ r = r' := by
  obtain ⟨g, i⟩ := r
  obtain ⟨g', i'⟩ := r'
  simp only [rule, RuleRef.mk.injEq]
  constructor
  · rintro ⟨rfl, h⟩
    exact ⟨rfl, (θ.numbers g).injective h⟩
  · rintro ⟨rfl, rfl⟩
    exact ⟨rfl, rfl⟩

theorem map_rule_sibling (r : RuleRef) (is : List Nat) :
    (is.map r.sibling).map θ.rule = (is.map (θ.numbers r.grammar)).map (θ.rule r).sibling := by
  rw [List.map_map, List.map_map]
  rfl

@[simp] theorem rest_place (p : Place) : (θ.place p).rest = p.rest := rfl

@[simp] theorem offset_place (p : Place) : (θ.place p).offset = p.offset + θ.bytes := rfl

theorem advance_place (p : Place) (n : Nat) : (θ.place p).advance n = θ.place (p.advance n) := by
  simp [place, Place.advance, Nat.add_right_comm]

theorem past_place (p : Place) (c : Char) (rest : List Char) :
    (θ.place p).past c rest = θ.place (p.past c rest) := by
  simp [place, Place.past, Nat.add_right_comm]

theorem derivations_eq_map (ds : List Derivation) : θ.derivations ds = ds.map θ.derivation := by
  induction ds with
  | nil => rfl
  | cons d ds ih => simp [derivations, ih]

@[simp] theorem length_derivation (d : Derivation) : (θ.derivation d).length = d.length := by
  cases d with
  | branch r n parts => simp [derivation, Derivation.length]
  | wrapped r inner => simp [derivation, Derivation.length, length_derivation inner]

theorem totalLength_derivations (ds : List Derivation) :
    Derivation.totalLength (ds.map θ.derivation) = Derivation.totalLength ds := by
  induction ds with
  | nil => rfl
  | cons d ds ih => simp [Derivation.totalLength, ih]

end Translation

/-- The rules of the second library are those of the first one under other numbers. -/
def Library.Renumbers (θ : Translation) (lib lib' : Library) : Prop :=
  ∀ r, lib'.rule? (θ.rule r) =
    (lib.rule? r).map (Rule.renumber (θ.numbers r.grammar) θ.rule)

/-! ## States -/

/-- The second memo records the translations of what the first one does. -/
def Memo.Translated (θ : Translation) (m m' : Memo) : Prop :=
  ∀ r offset, m'.outcome? (θ.rule r) (offset + θ.bytes) =
    (m.outcome? r offset).map (Option.map θ.derivation)

theorem Memo.Translated.record {θ : Translation} {m m' : Memo} (h : m.Translated θ m') (r : RuleRef)
    (offset : Nat) (outcome : Option Derivation) :
    (m.record r offset outcome).Translated θ
      (m'.record (θ.rule r) (offset + θ.bytes) (outcome.map θ.derivation)) := by
  intro r' offset'
  have hrest := h r' offset'
  simp only [Memo.outcome?] at hrest
  by_cases hkey : r = r' ∧ offset = offset'
  · obtain ⟨rfl, rfl⟩ := hkey
    simp [Memo.outcome?, Memo.record]
  · have hkey' : ¬ (θ.rule r = θ.rule r' ∧ offset = offset') := by
      rw [θ.rule_inj]
      exact hkey
    simp [Memo.outcome?, Memo.record, Std.HashMap.getElem?_insert, hrest, hkey, hkey']

/-- In the state `t` everything is as in `s`, but translated. -/
structure State.Translated (θ : Translation) (s t : State) : Prop where
  place : t.place = θ.place s.place
  furthest : t.cursor.furthest = s.cursor.furthest + θ.bytes
  calls : t.cursor.calls = s.cursor.calls
  nesting : t.cursor.nesting = s.cursor.nesting
  memo : Option.Rel (Memo.Translated θ) s.memo t.memo

namespace State.Translated

variable {θ : Translation} {s t : State}

theorem reachedLimit (h : s.Translated θ t) : t.cursor.reachedLimit = s.cursor.reachedLimit := by
  simp only [Cursor.reachedLimit, h.calls, h.nesting]

theorem offset (h : s.Translated θ t) : t.place.offset = s.place.offset + θ.bytes := by
  rw [h.place, Translation.offset_place]

theorem memo_eq_none (h : s.Translated θ t) (hs : s.memo = none) : t.memo = none := by
  have hmemo := h.memo
  rw [hs] at hmemo
  generalize t.memo = memo at hmemo
  cases hmemo
  rfl

theorem exists_memo (h : s.Translated θ t) {m : Memo} (hs : s.memo = some m) :
    ∃ m', t.memo = some m' ∧ m.Translated θ m' := by
  have hmemo := h.memo
  rw [hs] at hmemo
  generalize t.memo = memo at hmemo
  cases hmemo with
  | some hm => exact ⟨_, rfl, hm⟩

/-! ### Changes of the states -/

theorem moveTo (h : s.Translated θ t) (p : Place) :
    (s.moveTo p).Translated θ (t.moveTo (θ.place p)) :=
  { h with place := rfl }

theorem advanceTo (h : s.Translated θ t) (p : Place) :
    (s.advanceTo p).Translated θ (t.advanceTo (θ.place p)) := by
  refine { h with place := rfl, furthest := ?_ }
  have hfurthest := h.furthest
  simp only [State.advanceTo, Cursor.advanceTo, Translation.offset_place]
  omega

theorem spendCall (h : s.Translated θ t) : s.spendCall.Translated θ t.spendCall :=
  { h with calls := congrArg CallBudget.spend h.calls }

theorem refuseCall (h : s.Translated θ t) : s.refuseCall.Translated θ t.refuseCall :=
  { h with calls := congrArg CallBudget.refuse h.calls }

theorem enter (h : s.Translated θ t) : s.enter.Translated θ t.enter :=
  { h with nesting := congrArg Nesting.enter h.nesting }

theorem leave (h : s.Translated θ t) : s.leave.Translated θ t.leave :=
  { h with nesting := congrArg Nesting.leave h.nesting }

theorem refuseNesting (h : s.Translated θ t) : s.refuseNesting.Translated θ t.refuseNesting :=
  { h with nesting := congrArg Nesting.refuse h.nesting }

theorem change_memo (h : s.Translated θ t) {s' t' : State} (hs : s'.cursor = s.cursor)
    (ht : t'.cursor = t.cursor) (hmemo : Option.Rel (Memo.Translated θ) s'.memo t'.memo) :
    s'.Translated θ t' where
  place := by rw [State.place, State.place, hs, ht]; exact h.place
  furthest := by rw [hs, ht, h.furthest]
  calls := by rw [hs, ht, h.calls]
  nesting := by rw [hs, ht, h.nesting]
  memo := hmemo

theorem map_memo (h : s.Translated θ t) {f f' : Memo → Memo}
    (hf : ∀ m m', m.Translated θ m' → (f m).Translated θ (f' m')) :
    Option.Rel (Memo.Translated θ) (s.memo.map f) (t.memo.map f') := by
  cases hs : s.memo with
  | none =>
      rw [h.memo_eq_none hs]
      exact .none
  | some m =>
      obtain ⟨m', ht, hm⟩ := h.exists_memo hs
      rw [ht]
      exact .some (hf m m' hm)

theorem countMiss (h : s.Translated θ t) : s.countMiss.Translated θ t.countMiss :=
  h.change_memo rfl rfl (h.map_memo fun _ _ hm => hm)

theorem countFailureHit (h : s.Translated θ t) :
    s.countFailureHit.Translated θ t.countFailureHit :=
  h.change_memo rfl rfl (h.map_memo fun _ _ hm => hm)

theorem noteReplay (h : s.Translated θ t) (r : RuleRef) (offset : Nat) :
    (s.noteReplay r offset).Translated θ (t.noteReplay (θ.rule r) (offset + θ.bytes)) :=
  h.change_memo rfl rfl (h.map_memo fun _ _ hm => hm)

theorem learn (h : s.Translated θ t) (r : RuleRef) (offset : Nat) (outcome : Option Derivation) :
    (s.learn r offset outcome).Translated θ
      (t.learn (θ.rule r) (offset + θ.bytes) (outcome.map θ.derivation)) := by
  have hreached := h.reachedLimit
  cases hs : s.cursor.reachedLimit with
  | true =>
      rw [State.learn_of_reachedLimit r offset outcome hs,
        State.learn_of_reachedLimit (θ.rule r) _ _ (hreached.trans hs)]
      exact h
  | false =>
      rw [State.learn_of_unlimited r offset outcome hs,
        State.learn_of_unlimited (θ.rule r) _ _ (hreached.trans hs)]
      exact h.change_memo rfl rfl (h.map_memo fun _ _ hm => hm.record r offset outcome)

end State.Translated

/-! ## Runs -/

/-- The second run came out with what the first one did, translated by `f`. -/
structure Mirrors {α : Type} (θ : Translation) (f : α → α) (x y : α × State) : Prop where
  outcome : y.1 = f x.1
  translated : x.2.Translated θ y.2

namespace Mirrors

variable {α β : Type} {θ : Translation} {f : α → α}

theorem map {x y : α × State} (h : Mirrors θ f x y) {f' : β → β} (g g' : α → β)
    (hg : ∀ a, g' (f a) = f' (g a)) : Mirrors θ f' (g x.1, x.2) (g' y.1, y.2) :=
  ⟨(congrArg g' h.outcome).trans (hg x.1), h.translated⟩

theorem moveTo {x y : α × State} (h : Mirrors θ f x y) (p : Place) :
    Mirrors θ f (x.1, x.2.moveTo p) (y.1, y.2.moveTo (θ.place p)) :=
  ⟨h.outcome, h.translated.moveTo p⟩

theorem settle {x y : Option Derivation × State} (h : Mirrors θ (Option.map θ.derivation) x y)
    (p : Place) :
    Mirrors θ (Option.map θ.derivation) (x.2.leave.settle p x.1)
      (y.2.leave.settle (θ.place p) y.1) := by
  rw [h.outcome]
  cases x.1 with
  | none => exact ⟨rfl, h.translated.leave.moveTo p⟩
  | some d =>
      refine ⟨rfl, ?_⟩
      simp only [State.settle, Option.map_some, Translation.length_derivation]
      rw [Translation.advance_place]
      exact h.translated.leave.advanceTo (p.advance d.length)

end Mirrors

namespace Exec

/-- Runs from states that correspond to each other do so at the end, and in what they find. -/
def Mirrored (θ : Translation) (exec exec' : Exec) : Prop :=
  ∀ (r : RuleRef) {s t : State}, s.Translated θ t →
    Mirrors θ (Option.map θ.derivation) (exec r s) (exec' (θ.rule r) t)

namespace Mirrored

variable {θ : Translation} {exec exec' : Exec} {s t : State}

theorem some_of (h : exec.Mirrored θ exec') (r : RuleRef) (hst : s.Translated θ t) {d : Derivation}
    (hout : (exec r s).1 = some d) : (exec' (θ.rule r) t).1 = some (θ.derivation d) := by
  rw [(h r hst).outcome, hout]
  rfl

theorem none_of (h : exec.Mirrored θ exec') (r : RuleRef) (hst : s.Translated θ t)
    (hout : (exec r s).1 = none) : (exec' (θ.rule r) t).1 = none := by
  rw [(h r hst).outcome, hout]
  rfl

theorem test (h : exec.Mirrored θ exec') (r : RuleRef) (hst : s.Translated θ t) :
    Mirrors θ id (exec.test r s) (exec'.test (θ.rule r) t) := by
  have hmoved := (h r hst).moveTo s.place
  rw [← hst.place] at hmoved
  exact hmoved.map _ _ fun _ => Option.isSome_map

/-! ### Loops -/

theorem all (h : exec.Mirrored θ exec') (rs : List RuleRef) (hst : s.Translated θ t) :
    Mirrors θ (Option.map (List.map θ.derivation)) (exec.all rs s)
      (exec'.all (rs.map θ.rule) t) := by
  induction rs generalizing s t with
  | nil => exact ⟨rfl, hst⟩
  | cons r rs ih =>
      have hr := h r hst
      rw [List.map_cons]
      cases hout : (exec r s).1 with
      | none =>
          rw [Exec.all_cons_none rs hout, Exec.all_cons_none _ (h.none_of r hst hout)]
          exact ⟨rfl, hr.translated⟩
      | some d =>
          rw [Exec.all_cons_some rs hout, Exec.all_cons_some _ (h.some_of r hst hout)]
          apply (ih hr.translated).map (Option.map (d :: ·)) (Option.map (θ.derivation d :: ·))
          intro outcome
          cases outcome <;> rfl

theorem firstOf (h : exec.Mirrored θ exec') (rs : List RuleRef) (hst : s.Translated θ t) :
    Mirrors θ (Option.map θ.derivation) (exec.firstOf rs s)
      (exec'.firstOf (rs.map θ.rule) t) := by
  induction rs generalizing s t with
  | nil => exact ⟨rfl, hst⟩
  | cons r rs ih =>
      have hr := h r hst
      rw [List.map_cons]
      cases hout : (exec r s).1 with
      | none =>
          rw [Exec.firstOf_cons_none rs hout, Exec.firstOf_cons_none _ (h.none_of r hst hout)]
          exact ih hr.translated
      | some d =>
          rw [Exec.firstOf_cons_some rs hout, Exec.firstOf_cons_some _ (h.some_of r hst hout)]
          exact ⟨rfl, hr.translated⟩

theorem map_ifEnough (least count : Nat) (done : List Derivation) :
    (if least ≤ count then some (done.map θ.derivation).reverse else none) =
      (if least ≤ count then some done.reverse else none).map (List.map θ.derivation) := by
  split <;> simp

theorem repeated (h : exec.Mirrored θ exec') (r : RuleRef) (least : Nat) (most : Option Nat)
    (unread : List Char) (count : Nat) (done : List Derivation) {s t : State}
    (hst : s.Translated θ t) :
    Mirrors θ (Option.map (List.map θ.derivation))
      (exec.repeated r least most unread count done s)
      (exec'.repeated (θ.rule r) least most unread count (done.map θ.derivation) t) := by
  by_cases hmost : most = some count
  · rw [Exec.repeated_full unread done hmost, Exec.repeated_full unread _ hmost]
    exact ⟨map_ifEnough least count done, hst⟩
  have hr := h r hst
  cases hout : (exec r s).1 with
  | none =>
      rw [Exec.repeated_none unread done hmost hout,
        Exec.repeated_none unread _ hmost (h.none_of r hst hout)]
      exact ⟨map_ifEnough least count done, hr.translated⟩
  | some d =>
      have hout' := h.some_of r hst hout
      have hlength := θ.length_derivation d
      by_cases hd : d.length = 0
      · rw [Exec.repeated_empty unread done hmost hout hd,
          Exec.repeated_empty unread _ hmost hout' (hlength.trans hd)]
        exact ⟨by simp, hr.translated⟩
      have hd' : (θ.derivation d).length ≠ 0 := by rwa [hlength]
      cases unread with
      | nil =>
          rw [Exec.repeated_nil done hmost hout hd, Exec.repeated_nil _ hmost hout' hd']
          exact ⟨rfl, hr.translated⟩
      | cons c unread =>
          rw [Exec.repeated_cons c unread done hmost hout hd,
            Exec.repeated_cons c unread _ hmost hout' hd']
          exact repeated h r least most unread (count + 1) (d :: done) hr.translated

theorem upTo (h : exec.Mirrored θ exec') (stop : RuleRef) (rest : List Char) (passed : Nat)
    {s t : State} (hst : s.Translated θ t) :
    Mirrors θ id (exec.upTo stop rest passed s) (exec'.upTo (θ.rule stop) rest passed t) := by
  have htest := h.test stop hst
  cases hout : (exec stop s).1 with
  | some d =>
      rw [Exec.upTo_found rest passed hout, Exec.upTo_found rest passed (h.some_of stop hst hout)]
      exact ⟨rfl, htest.translated⟩
  | none =>
      have hout' := h.none_of stop hst hout
      cases rest with
      | nil =>
          rw [Exec.upTo_nil passed hout, Exec.upTo_nil passed hout']
          exact ⟨rfl, htest.translated⟩
      | cons c rest =>
          rw [Exec.upTo_cons c rest passed hout, Exec.upTo_cons c rest passed hout']
          have hmoved := htest.translated.moveTo (s.place.past c rest)
          rw [← Translation.past_place, ← hst.place] at hmoved
          exact upTo h stop rest (passed + c.utf8Size) hmoved

/-! ### Executions -/

theorem map_branch (r : RuleRef) (outcome : Option (List Derivation)) :
    (outcome.map (List.map θ.derivation)).map
        (fun ds => .branch (θ.rule r) (Derivation.totalLength ds) ds) =
      (outcome.map fun ds => .branch r (Derivation.totalLength ds) ds).map θ.derivation := by
  cases outcome with
  | none => rfl
  | some ds =>
      simp [Translation.derivation, Translation.derivations_eq_map,
        Translation.totalLength_derivations]

theorem map_leaf (r : RuleRef) (n : Option Nat) :
    n.map (fun n => .branch (θ.rule r) n []) =
      (n.map fun n => .branch r n []).map θ.derivation := by
  cases n <;> rfl

theorem map_wrapped (r : RuleRef) (outcome : Option Derivation) :
    (outcome.map θ.derivation).map (.wrapped (θ.rule r)) =
      (outcome.map (.wrapped r)).map θ.derivation := by
  cases outcome <;> rfl

theorem perform (h : exec.Mirrored θ exec') (r : RuleRef) (kind : Kind RuleRef)
    (hst : s.Translated θ t) :
    Mirrors θ (Option.map θ.derivation) (exec.perform r s kind)
      (exec'.perform (θ.rule r) t (kind.renumber (θ.numbers r.grammar) θ.rule)) := by
  have hrest : t.place.rest = s.place.rest := by rw [hst.place, Translation.rest_place]
  cases kind with
  | terminal matcher =>
      refine ⟨?_, hst⟩
      simp only [Kind.renumber, Exec.perform, hrest]
      exact map_leaf r _
  | text literal ignoreCase =>
      refine ⟨?_, hst⟩
      simp only [Kind.renumber, Exec.perform, hrest]
      exact map_leaf r _
  | sequence parts =>
      have hall := h.all (parts.map r.sibling) hst
      rw [θ.map_rule_sibling] at hall
      exact hall.map _ _ (map_branch r)
  | choice options =>
      have hfirst := h.firstOf (options.map r.sibling) hst
      rw [θ.map_rule_sibling] at hfirst
      exact hfirst.map _ _ (map_wrapped r)
  | rep body least most =>
      simp only [Kind.renumber, Exec.perform, hrest]
      exact (h.repeated (r.sibling body) least most s.place.rest 0 [] hst).map _ _ (map_branch r)
  | ahead body =>
      apply (h.test (r.sibling body) hst).map
        (fun found => if found then some (Derivation.branch r 0 []) else none)
        fun found => if found then some (Derivation.branch (θ.rule r) 0 []) else none
      intro found
      cases found <;> rfl
  | notAhead body =>
      apply (h.test (r.sibling body) hst).map
        (fun found => if found then none else some (Derivation.branch r 0 []))
        fun found => if found then none else some (Derivation.branch (θ.rule r) 0 [])
      intro found
      cases found <;> rfl
  | upTo stop =>
      have hpassed := (h.upTo (r.sibling stop) s.place.rest 0 hst).moveTo s.place
      rw [← hst.place] at hpassed
      simp only [Kind.renumber, Exec.perform, hrest]
      apply hpassed.map
        (fun passed => if 0 < passed then some (Derivation.branch r passed []) else none)
        fun passed => if 0 < passed then some (Derivation.branch (θ.rule r) passed []) else none
      intro passed
      by_cases hpassed : 0 < passed <;> simp [hpassed, Translation.derivation, Translation.derivations]
  | ref name target | inherited name target => exact (h target hst).map _ _ (map_wrapped r)
  | label body => exact (h (r.sibling body) hst).map _ _ (map_wrapped r)

/-- The limits are the same, so either both executions are refused or none is. -/
theorem limited {lib lib' : Library} (hlib : lib.Renumbers θ lib') {inner inner' : Option Exec}
    (h : Option.Rel (Exec.Mirrored θ) inner inner') :
    (Exec.limited lib inner).Mirrored θ (Exec.limited lib' inner') := by
  intro r s t hst
  cases hcalls : s.cursor.calls.isSpent with
  | true =>
      have hcalls' : t.cursor.calls.isSpent = true := by rw [hst.calls, hcalls]
      rw [Exec.limited_of_isSpent inner hcalls, Exec.limited_of_isSpent inner' hcalls']
      exact ⟨rfl, hst.refuseCall⟩
  | false =>
      have hcalls' : t.cursor.calls.isSpent = false := by rw [hst.calls, hcalls]
      cases h with
      | none =>
          rw [Exec.limited_none hcalls, Exec.limited_none hcalls']
          exact ⟨rfl, hst.spendCall.refuseNesting⟩
      | @some exec exec' h =>
          cases hnesting : s.cursor.nesting.exceeded with
          | true =>
              have hnesting' : t.cursor.nesting.exceeded = true := by rw [hst.nesting, hnesting]
              rw [Exec.limited_of_exceeded hcalls hnesting,
                Exec.limited_of_exceeded hcalls' hnesting']
              exact ⟨rfl, hst.spendCall.refuseNesting⟩
          | false =>
              have hnesting' : t.cursor.nesting.exceeded = false := by rw [hst.nesting, hnesting]
              have hrule' := hlib r
              cases hrule : lib.rule? r with
              | none =>
                  rw [hrule] at hrule'
                  rw [Exec.limited_of_rule_none hcalls hnesting hrule,
                    Exec.limited_of_rule_none hcalls' hnesting' hrule']
                  exact ⟨rfl, hst.spendCall⟩
              | some rule =>
                  rw [hrule] at hrule'
                  rw [Exec.limited_of_rule hcalls hnesting hrule,
                    Exec.limited_of_rule hcalls' hnesting' hrule', hst.place]
                  exact (h.perform r rule.kind hst.spendCall.enter).settle s.place

theorem memoized (h : exec.Mirrored θ exec') :
    (Exec.memoized exec).Mirrored θ (Exec.memoized exec') := by
  intro r s t hst
  cases hmemo : s.memo with
  | none =>
      rw [Exec.memoized_of_none hmemo, Exec.memoized_of_none (hst.memo_eq_none hmemo)]
      exact h r hst
  | some memo =>
      obtain ⟨memo', hmemo', htranslated⟩ := hst.exists_memo hmemo
      have hsame : memo'.outcome? (θ.rule r) t.place.offset =
          (memo.outcome? r s.place.offset).map (Option.map θ.derivation) := by
        rw [hst.offset]
        exact htranslated r s.place.offset
      rcases hhit : memo.outcome? r s.place.offset with _ | _ | d
      · rw [hhit] at hsame
        rw [Exec.memoized_of_miss hmemo hhit, Exec.memoized_of_miss hmemo' hsame]
        have hrun := h r hst.countMiss
        rw [hrun.outcome, hst.offset]
        exact ⟨rfl, hrun.translated.learn r s.place.offset _⟩
      · rw [hhit] at hsame
        rw [Exec.memoized_of_failure_hit hmemo hhit, Exec.memoized_of_failure_hit hmemo' hsame]
        exact ⟨rfl, hst.countFailureHit⟩
      · rw [hhit] at hsame
        rw [Exec.memoized_of_hit hmemo hhit, Exec.memoized_of_hit hmemo' hsame]
        refine ⟨rfl, ?_⟩
        rw [Translation.length_derivation, hst.offset, hst.place, Translation.advance_place]
        exact (hst.noteReplay r s.place.offset).advanceTo (s.place.advance d.length)

end Mirrored

end Exec

namespace Library

variable {θ : Translation} {lib lib' : Library}

theorem exec_mirrored (h : lib.Renumbers θ lib') (room : Nat) :
    (lib.exec room).Mirrored θ (lib'.exec room) := by
  induction room with
  | zero => exact Exec.Mirrored.memoized (.limited h .none)
  | succ room ih => exact Exec.Mirrored.memoized (.limited h (.some ih))

theorem run_mirrored (h : lib.Renumbers θ lib') : Exec.Mirrored θ lib.run lib'.run := by
  intro r s t hst
  unfold run
  rw [hst.nesting]
  exact exec_mirrored h _ r hst

end Library

end Peg
