import Peg.Proofs.Parse.Basic
import Peg.Proofs.Semantics.Matches

/-!
# What successful parses read

A parse that succeeds reads its match off a derivation of the root rule from the place of the start
offset on.
-/

namespace Peg.Library

variable {lib : Library} {g : Nat} {text : String} {options : ParseOptions} {m : Match}

theorem verdict_eq_ok {source : List Char} {place : Place} {outcome : Option Derivation}
    {furthest : Nat} (h : lib.verdict options source place outcome furthest = .ok m) :
    ∃ d, outcome = some d ∧ m = .ofDerivation lib source place d ∧
      (options.requireFullConsumption = true → place.offset + d.length = byteLength source) := by
  unfold verdict at h
  cases outcome with
  | none => cases h
  | some d =>
      simp only at h
      split at h
      · cases h
      · next hfull =>
          cases h
          refine ⟨d, rfl, rfl, fun hrequired => ?_⟩
          simpa [hrequired] using hfull

theorem exists_derives_of_parse (hclosed : lib.Closed)
    (h : lib.parse g text options = .ok m) :
    ∃ root p d, Place.at? text.toList options.startOffset = some p ∧ lib.Derives root p d ∧
      m = .ofDerivation lib text.toList p d ∧
      (options.requireFullConsumption = true → p.offset + d.length = byteLength text.toList) := by
  cases hroot : lib.parseRoot g options.root with
  | none => simp [parse, parseLogged, hroot] at h
  | some root =>
      cases hplace : Place.at? text.toList options.startOffset with
      | none => simp [parse, parseLogged, hroot, Cursor.at?, hplace] at h
      | some p =>
          have hcursor : Cursor.at? text.toList options.startOffset =
              some (.ofPlace text.toList p) := by simp [Cursor.at?, hplace]
          obtain ⟨hin, -⟩ := Place.at?_eq_some_iff.1 hplace
          let start := parseStart options (.ofPlace text.toList p)
          have hstart : lib.Inside start := inside_start hin hin.offset_le options.memoize
          rw [parse_eq hroot hcursor] at h
          have hreached : (lib.run root start).2.cursor.reachedLimit = false := by
            rw [← Bool.not_eq_true, ← limitError_parseResult_iff, h]
            exact not_limitError_of_isSome rfl
          rw [parseResult_of_unlimited hreached] at h
          obtain ⟨d, hd, hm, hfull⟩ := verdict_eq_ok h
          exact ⟨root, p, d, rfl,
            (lib.exec_deriving hclosed _).allows (hclosed.knows_parseRoot hroot) hstart d hd,
            hm, hfull⟩

end Peg.Library
