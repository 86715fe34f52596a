import Peg.Proofs.Semantics.Completeness

/-!
# Runs without a memo compute what rules mean

A run without a memo that exceeds no limit finds the one outcome that the rule has, and tells the
extent of it: the calls it made are those of the outcome. Conversely every outcome is found by a
run whose limits are enough for its extent. Nothing is assumed of the grammars but that they were
built, so rules may refer to each other in any way.
-/

namespace Peg

namespace Library

variable {lib : Library}

theorem run_follows (h : lib.Closed) {r : RuleRef} (hr : lib.Knows r) {s : State}
    (hs : lib.Ready s) : lib.Follows s.cursor.nesting.room r s (lib.run r s) :=
  (lib.exec_sound h _).follows r s hr hs

section Run

variable (hlib : lib.Built) {r : RuleRef} (hr : lib.Knows r) {cursor : Cursor}
  (hplace : cursor.place.IsIn cursor.source)

include hlib hr hplace

theorem run_sound (hreached : (lib.run r (.start cursor false)).2.cursor.reachedLimit = false) :
    (∃ e, lib.Yields r cursor.place (lib.run r (.start cursor false)).1 e ∧
      e.height ≤ cursor.nesting.room ∧
      (lib.run r (.start cursor false)).2.cursor.calls.made = cursor.calls.made + e.calls) ∧
    ∀ outcome e, lib.Yields r cursor.place outcome e →
      outcome = (lib.run r (.start cursor false)).1 := by
  have hfollows := run_follows hlib.closed hr (ready_start hplace false)
  obtain ⟨e, he, hspends⟩ := hfollows.leads.means hreached
  refine ⟨⟨e, he, hspends.height rfl, hspends.made rfl⟩, fun outcome e' he' => ?_⟩
  exact (Yields.unique he' he).1

theorem run_complete {outcome : Option Derivation} {e : Extent}
    (he : lib.Yields r cursor.place outcome e) (hunlimited : cursor.reachedLimit = false)
    (hheight : e.height ≤ cursor.nesting.room)
    (hcalls : ∀ limit ∈ cursor.calls.limit, cursor.calls.made + e.calls ≤ limit) :
    (lib.run r (.start cursor false)).1 = outcome ∧
      (lib.run r (.start cursor false)).2.place = cursor.place.after outcome ∧
      (lib.run r (.start cursor false)).2.cursor.reachedLimit = false := by
  have hs : lib.Ready (.start cursor false) := ready_start hplace false
  obtain ⟨hout, hwithin⟩ :=
    (lib.exec_finds hlib.closed _).finds r (.start cursor false) outcome e hs he
      ⟨hunlimited, hheight, hcalls⟩
  refine ⟨hout, ?_, hwithin.unlimited⟩
  rw [(run_follows hlib.closed hr hs).place]
  exact congrArg cursor.place.after hout

end Run

/-- What a run without a memo finds if it exceeds no limit is what the rule yields, and a run
finds what the rule yields if the limits are enough. -/
theorem run_adequate (hlib : lib.Built) {r : RuleRef} (hr : lib.Knows r) {cursor : Cursor}
    (hplace : cursor.place.IsIn cursor.source) :
    ((lib.run r (.start cursor false)).2.cursor.reachedLimit = false →
      (∃ e, lib.Yields r cursor.place (lib.run r (.start cursor false)).1 e ∧
        e.height ≤ cursor.nesting.room ∧
        (lib.run r (.start cursor false)).2.cursor.calls.made = cursor.calls.made + e.calls) ∧
      ∀ outcome e, lib.Yields r cursor.place outcome e →
        outcome = (lib.run r (.start cursor false)).1) ∧
    ∀ outcome e, lib.Yields r cursor.place outcome e → cursor.reachedLimit = false →
      e.height ≤ cursor.nesting.room →
      (∀ limit ∈ cursor.calls.limit, cursor.calls.made + e.calls ≤ limit) →
      (lib.run r (.start cursor false)).1 = outcome ∧
        (lib.run r (.start cursor false)).2.place = cursor.place.after outcome ∧
        (lib.run r (.start cursor false)).2.cursor.reachedLimit = false :=
  ⟨run_sound hlib hr hplace, fun _ _ => run_complete hlib hr hplace⟩

/-- Brackets around brackets yield a match of all four of them, and the run whose limits are just
enough for it finds it. -/
theorem run_adequate_brackets :
    bracketLibrary.Built ∧ bracketLibrary.Knows ⟨0, 4⟩ ∧
      ∃ d e, bracketLibrary.Yields ⟨0, 4⟩ (.start "(())".toList) (some d) e ∧ d.length = 4 ∧
        (bracketLibrary.run ⟨0, 4⟩ (.start (((Cursor.new "(())".toList).withMaxDepth
          e.height).withCallLimit (some e.calls)) false)).1 = some d := by
  have hstart := Place.isIn_start "(())".toList
  have hreached : (bracketLibrary.run ⟨0, 4⟩
      (.start (.new "(())".toList) false)).2.cursor.reachedLimit = false := by decide +kernel
  have hlength : (bracketLibrary.run ⟨0, 4⟩
      (.start (.new "(())".toList) false)).1.map Derivation.length = some 4 := by decide +kernel
  obtain ⟨⟨e, he, -, -⟩, -⟩ :=
    (run_adequate bracketLibrary_built bracketLibrary_knows hstart).1 hreached
  obtain ⟨d, hd, hd4⟩ := Option.map_eq_some_iff.1 hlength
  rw [hd] at he
  let tight : Cursor :=
    ((Cursor.new "(())".toList).withMaxDepth e.height).withCallLimit (some e.calls)
  have hplace : tight.place.IsIn tight.source := hstart
  have hcalls : ∀ limit ∈ tight.calls.limit, tight.calls.made + e.calls ≤ limit := by
    intro limit hlimit
    cases hlimit
    exact Nat.le_of_eq (Nat.zero_add e.calls)
  obtain ⟨hout, -, -⟩ :=
    (run_adequate bracketLibrary_built bracketLibrary_knows hplace).2 (some d) e he rfl
      (Nat.le_refl e.height) hcalls
  exact ⟨bracketLibrary_built, bracketLibrary_knows, d, e, he, hd4, hout⟩

end Library

end Peg
