import Peg.Proofs.Text.Place
import Peg.Rule

/-!
# What a matcher matches

Literals, ranges and patterns match whole characters at the beginning of a text. For patterns this
holds of every automaton, since the ends that a search considers are offsets between the characters
it reads.
-/

namespace Peg

theorem literalAt_splits {alike : Char → Char → Bool} {literal text : List Char} {n : Nat}
    (h : literalAt alike literal text = some n) : Splits n text := by
  induction literal generalizing text n with
  | nil =>
      simp only [literalAt, Option.some.injEq] at h
      subst h
      exact Splits.zero text
  | cons e es ih =>
      cases text with
      | nil => simp [literalAt] at h
      | cons c cs =>
          simp only [literalAt] at h
          split at h
          · obtain ⟨m, hm, rfl⟩ := Option.map_eq_some_iff.1 h
            exact (ih hm).cons c
          · cases h

namespace Automaton

/-- A match ends where the best one so far did or behind characters yet to be read. -/
theorem searchFrom_splits {a : Automaton} {states : List Nat} {offset : Nat} {best : Option Nat}
    {text : List Char} {n : Nat} (h : a.searchFrom states offset best text = some n) :
    best = some n ∨ ∃ m, Splits m text ∧ n = offset + m := by
  induction text generalizing states offset best with
  | nil =>
      simp only [searchFrom] at h
      split at h
      · cases h
        exact .inr ⟨0, Splits.zero [], rfl⟩
      · exact .inl h
  | cons c rest ih =>
      simp only [searchFrom] at h
      split at h
      · exact .inl h
      · rcases ih h with hbest | ⟨m, hm, rfl⟩
        · split at hbest
          · cases hbest
            exact .inr ⟨0, Splits.zero _, rfl⟩
          · exact .inl hbest
        · exact .inr ⟨c.utf8Size + m, hm.cons c, by omega⟩

theorem searchAheadFrom_splits {a : Automaton} {plain : Char → Bool} {states : List Nat}
    {before : Option Char} {matched : Bool} {offset : Nat} {best : Option Nat} {text : List Char}
    {n : Nat}
    (h : a.searchAheadFrom plain states before matched offset best text = some (some n)) :
    best = some n ∨ ∃ m, Splits m text ∧ n = offset + m := by
  induction text generalizing states before matched offset best with
  | nil =>
      simp only [searchAheadFrom, Option.some.injEq] at h
      split at h
      · cases h
        exact .inr ⟨0, Splits.zero [], rfl⟩
      · exact .inl h
  | cons c rest ih =>
      simp only [searchAheadFrom] at h
      split at h
      · exact .inl (Option.some.inj h)
      · split at h
        · cases h
        · rcases ih h with hbest | ⟨m, hm, rfl⟩
          · split at hbest
            · cases hbest
              exact .inr ⟨0, Splits.zero _, rfl⟩
            · exact .inl hbest
          · exact .inr ⟨c.utf8Size + m, hm.cons c, by omega⟩

theorem findEnd_splits {a : Automaton} {text : List Char} {n : Nat}
    (h : a.findEnd text = some n) : Splits n text := by
  have hend : (none : Option Nat) = some n ∨ ∃ m, Splits m text ∧ n = 0 + m := by
    unfold findEnd at h
    split at h
    · next result hresult =>
        subst h
        exact searchAheadFrom_splits hresult
    · exact searchFrom_splits h
  rcases hend with hnone | ⟨m, hm, rfl⟩
  · cases hnone
  · rw [Nat.zero_add]
    exact hm

end Automaton

theorem Matcher.matchAt_splits {m : Matcher} {text : List Char} {n : Nat}
    (h : m.matchAt text = some n) : Splits n text := by
  cases m with
  | pattern p => exact Automaton.findEnd_splits h
  | range first last =>
      cases text with
      | nil => simp [matchAt] at h
      | cons c cs =>
          simp only [matchAt] at h
          split at h
          · cases h
            exact Splits.head c cs
          · cases h
  | any =>
      cases text with
      | nil => simp [matchAt] at h
      | cons c cs =>
          cases h
          exact Splits.head c cs
  | endOfInput =>
      cases text with
      | nil =>
          cases h
          exact Splits.zero []
      | cons c cs => simp [matchAt] at h

end Peg
