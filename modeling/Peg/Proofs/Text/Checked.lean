import Peg.Proofs.Text.Place

/-!
# Operations that stay in range

Sums, differences, pieces of arrays and pieces of texts that are refused where they would leave a
range: a sum its bound, a difference zero, an index the array, an offset the boundaries between
characters. The bounds are sizes of texts and buffers and limits that were asked for, numbers that a
program has at hand, so a sum within them needs no wider number than these.
-/

namespace Peg

/-- The sum, none if it is beyond the bound. -/
def sumWithin? (bound a b : Nat) : Option Nat := if a + b ≤ bound then some (a + b) else none

theorem sumWithin?_eq_some {bound a b : Nat} (h : a + b ≤ bound) :
    sumWithin? bound a b = some (a + b) := if_pos h

/-- The difference, none if it is below zero. -/
def difference? (a b : Nat) : Option Nat := if b ≤ a then some (a - b) else none

theorem difference?_eq_some {a b : Nat} (h : b ≤ a) : difference? a b = some (a - b) := if_pos h

theorem add_of_difference? {a b n : Nat} (h : difference? a b = some n) : n + b = a := by
  unfold difference? at h
  split at h
  · cases h
    omega
  · cases h

/-- The elements from `start` on and before `stop`, none if these are not indices in that order. -/
def slice? {α : Type} (xs : Array α) (start stop : Nat) : Option (Array α) :=
  if start ≤ stop ∧ stop ≤ xs.size then some (xs.extract start stop) else none

theorem slice?_eq_some {α : Type} {xs : Array α} {start stop : Nat} (h : start ≤ stop)
    (h' : stop ≤ xs.size) : slice? xs start stop = some (xs.extract start stop) := if_pos ⟨h, h'⟩

/-- The text from one offset to another, none if these are not places of the text in that order. -/
def textBetween? (text : List Char) (start stop : Nat) : Option (List Char) := do
  let front ← Place.at? text start
  let _ ← Place.at? text stop
  if start ≤ stop then some (takeBytes (stop - start) front.rest) else none

theorem textBetween?_eq_some {text : List Char} {p : Place} (hp : p.IsIn text) {n : Nat}
    (hn : Splits n p.rest) :
    textBetween? text p.offset (p.offset + n) = some (takeBytes n p.rest) := by
  have hstart : Place.at? text p.offset = some p := Place.at?_eq_some_iff.2 ⟨hp, rfl⟩
  have hstop : Place.at? text (p.offset + n) = some (p.advance n) :=
    Place.at?_eq_some_iff.2 ⟨hp.advance hn, rfl⟩
  simp [textBetween?, hstart, hstop]

theorem textBetween?_append (front middle back : List Char) :
    textBetween? (front ++ (middle ++ back)) (byteLength front)
      (byteLength front + byteLength middle) = some middle := by
  have hin : (⟨byteLength front, middle ++ back⟩ : Place).IsIn (front ++ (middle ++ back)) :=
    ⟨front, rfl, rfl⟩
  have hbetween := textBetween?_eq_some hin ⟨middle, back, rfl, rfl⟩
  rw [takeBytes_byteLength_append] at hbetween
  exact hbetween

end Peg
