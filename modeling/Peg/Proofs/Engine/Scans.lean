import Peg.Proofs.Engine.Tally

/-!
# Scans that are cut short

A scan passes over characters at which its end does not match. Once something was refused its end
matches nowhere any more, however the text goes on, and the scan runs on to the end of the text. The
tally of these scans goes by the run itself, like that of all executions. In a library without scans
none is counted (`Library.cutScans_eq_zero`).
-/

namespace Peg

namespace Tally

/-- Inside the execution of a kind of rule. A scan counts itself if something is refused for the first
time while it goes on. -/
def cutIn (tally : Tally) (exec : Exec) (r : RuleRef) (s : State) : Kind RuleRef → Nat
  | .upTo stop =>
    if !s.cursor.reachedLimit && (exec.perform r s (.upTo stop)).2.cursor.reachedLimit then 1 else 0
  | kind => tally.perform exec r s kind

def cutLimited (lib : Library) (inner : Option (Tally × Exec)) : Tally := fun r s =>
  if s.cursor.calls.isSpent || s.cursor.nesting.exceeded then 0
  else
    match inner, lib.rule? r with
    | some (tally, exec), some rule => tally.cutIn exec r s.spendCall.enter rule.kind
    | _, _ => 0

def cutMemoized (tally : Tally) : Tally := fun r s =>
  match s.memo.bind (·.outcome? r s.place.offset) with
  | some _ => 0
  | none => tally r s.countMiss

end Tally

/-- How many scans go on in a run when something is refused for the first time, those inside of others
left out, with room for so many executions nested inside each other. -/
def Library.cutScans (lib : Library) : Nat → Tally
  | 0 => .cutMemoized (.cutLimited lib none)
  | room + 1 => .cutMemoized (.cutLimited lib (some (lib.cutScans room, lib.exec room)))

/-! ## Libraries without scans -/

def Kind.isScan {α : Type} : Kind α → Bool
  | .upTo _ => true
  | _ => false

/-- No rule of the library scans. -/
def Library.ScanFree (lib : Library) : Prop :=
  ∀ grammar ∈ lib.grammars, ∀ rule ∈ grammar.rules, rule.kind.isScan = false

instance (lib : Library) : Decidable lib.ScanFree :=
  inferInstanceAs (Decidable (∀ grammar ∈ lib.grammars, ∀ rule ∈ grammar.rules, _))

theorem Library.ScanFree.isScan_kind {lib : Library} (h : lib.ScanFree) {r : RuleRef}
    {rule : Rule RuleRef} (hrule : lib.rule? r = some rule) : rule.kind.isScan = false := by
  obtain ⟨grammar, hgrammar, hrule⟩ := Option.bind_eq_some_iff.1 hrule
  exact h grammar (Array.mem_of_getElem? hgrammar) rule (Array.mem_of_getElem? hrule)

namespace Tally

variable {tally : Tally} (h : ∀ r s, tally r s = 0) (exec : Exec)

include h

theorem all_eq_zero (rs : List RuleRef) (s : State) : tally.all exec rs s = 0 := by
  induction rs generalizing s with
  | nil => rfl
  | cons r rs ih => simp [all, h, ih]

theorem firstOf_eq_zero (rs : List RuleRef) (s : State) : tally.firstOf exec rs s = 0 := by
  induction rs generalizing s with
  | nil => rfl
  | cons r rs ih => simp [firstOf, h, ih]

theorem repeated_eq_zero (r : RuleRef) (most : Option Nat) (unread : List Char) (count : Nat)
    (s : State) : tally.repeated exec r most unread count s = 0 := by
  induction unread generalizing count s with
  | nil =>
      unfold repeated
      split
      · rfl
      · rw [h]
        cases (exec r s).1 <;> rfl
  | cons c unread ih =>
      unfold repeated
      split
      · rfl
      · rw [h]
        cases (exec r s).1 with
        | none => rfl
        | some d => simp [ih]

theorem cutIn_eq_zero (r : RuleRef) (s : State) {kind : Kind RuleRef}
    (hkind : kind.isScan = false) : tally.cutIn exec r s kind = 0 := by
  cases kind with
  | upTo stop => cases hkind
  | terminal _ | text _ _ => rfl
  | sequence parts => exact all_eq_zero h exec _ s
  | choice options => exact firstOf_eq_zero h exec _ s
  | rep body least most => exact repeated_eq_zero h exec _ most _ 0 s
  | ahead body | notAhead body | label body => exact h _ s
  | ref _ target | inherited _ target => exact h target s

omit h in
theorem cutLimited_eq_zero {lib : Library} (hlib : lib.ScanFree) {inner : Option (Tally × Exec)}
    (h : ∀ pair ∈ inner, ∀ r s, pair.1 r s = 0) (r : RuleRef) (s : State) :
    Tally.cutLimited lib inner r s = 0 := by
  unfold cutLimited
  split
  · rfl
  split
  · next tally exec rule hrule =>
      exact cutIn_eq_zero (h (tally, exec) rfl) exec r _ (hlib.isScan_kind hrule)
  · rfl

theorem cutMemoized_eq_zero (r : RuleRef) (s : State) : tally.cutMemoized r s = 0 := by
  unfold cutMemoized
  split
  · rfl
  · exact h r s.countMiss

end Tally

theorem Library.cutScans_eq_zero {lib : Library} (hlib : lib.ScanFree) (room : Nat) (r : RuleRef)
    (s : State) : lib.cutScans room r s = 0 := by
  induction room generalizing r s with
  | zero => exact Tally.cutMemoized_eq_zero (Tally.cutLimited_eq_zero hlib fun _ h => by cases h) r s
  | succ room ih =>
      refine Tally.cutMemoized_eq_zero (Tally.cutLimited_eq_zero hlib fun pair hpair => ?_) r s
      cases hpair
      exact ih

end Peg
