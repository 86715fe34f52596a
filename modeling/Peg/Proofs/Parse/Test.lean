import Peg.Proofs.Grammar.Built
import Peg.Proofs.Match.Reading
import Peg.Proofs.Parse.Basic
import Peg.Proofs.Text.Place

/-!
# Tests and parses

A test runs the root rule as a parse does that starts at the beginning of the text and need not
reach its end. But a parse asks in the end whether a limit was exceeded, and a test does not. So the
two agree as long as the parse reports no limit (`Library.test_eq_of_not_limitError`), and where it
reports one the test still tells the length of what the run was left with
(`Library.test_eq_some_iff`). For brackets nested deeper than executions may nest, this is the match
of none of them (`Library.test_beyond_depth`).
-/

namespace Peg

theorem Cursor.at?_zero (source : List Char) : at? source 0 = some (new source) := by
  have hplace : Place.at? source 0 = some (.start source) :=
    Place.at?_eq_some_iff.2 ⟨Place.isIn_start source, rfl⟩
  rw [at?, hplace]
  rfl

namespace Library

variable {lib : Library} {g : Nat} {text : String} {root : RuleRef}

/-- The outcome of the run that a test and a parse share. -/
def leadingOutcome (lib : Library) (g : Nat) (text : String) : Option Derivation :=
  (lib.parseRoot g none).bind fun root =>
    (lib.run root (parseStart { requireFullConsumption := false } (.new text.toList))).1

theorem test_eq_leadingOutcome (lib : Library) (g : Nat) (text : String) :
    lib.test g text = (lib.leadingOutcome g text).map Derivation.length := by
  unfold test leadingOutcome parseRoot
  rw [Option.bind_map]
  rfl

theorem parse_of_no_root {options : ParseOptions} (hroot : lib.parseRoot g options.root = none) :
    FailsWith (.unknownRule (options.root.getD "")) (lib.parse g text options) := by
  simp only [parse, parseLogged, hroot]
  exact failsWith_ofOffset _ _ _

theorem map_length_verdict (source : List Char) (place : Place) (outcome : Option Derivation)
    (furthest : Nat) :
    (lib.verdict { requireFullConsumption := false } source place outcome furthest).toOption.map
      Match.length = outcome.map Derivation.length := by
  cases outcome with
  | none => rfl
  | some d =>
      change some (Match.ofDerivation lib source place d).length = some d.length
      rw [Match.length, Match.ofDerivation_node]

/-- A test agrees with a parse that reports no limit. -/
theorem test_eq_of_not_limitError
    (h : ¬ LimitError (lib.parse g text { requireFullConsumption := false })) :
    lib.test g text =
      (lib.parse g text { requireFullConsumption := false }).toOption.map Match.length := by
  rw [test_eq_leadingOutcome, leadingOutcome]
  cases hroot : lib.parseRoot g none with
  | none =>
      have hfails : FailsWith _ (lib.parse g text { requireFullConsumption := false }) :=
        parse_of_no_root hroot
      obtain ⟨error, herror, -⟩ := hfails
      rw [herror]
      rfl
  | some root =>
      have hparse : lib.parse g text { requireFullConsumption := false } = _ :=
        parse_eq hroot (Cursor.at?_zero text.toList)
      rw [hparse] at h ⊢
      rw [limitError_parseResult_iff, Bool.not_eq_true] at h
      rw [parseResult_of_unlimited h, map_length_verdict, Option.bind_some]

/-- A test tells a length if and only if the parse that need not reach the end of the text has a
match of this length, or reports that a limit was exceeded and its run came out with a match of this
length all the same. -/
theorem test_eq_some_iff (lib : Library) (g : Nat) (text : String) (n : Nat) :
    lib.test g text = some n ↔
      (∃ m, lib.parse g text { requireFullConsumption := false } = .ok m ∧ m.length = n) ∨
        (LimitError (lib.parse g text { requireFullConsumption := false }) ∧
          ∃ d, lib.leadingOutcome g text = some d ∧ d.length = n) := by
  by_cases hlimit : LimitError (lib.parse g text { requireFullConsumption := false })
  · rw [test_eq_leadingOutcome, Option.map_eq_some_iff]
    constructor
    · exact fun houtcome => .inr ⟨hlimit, houtcome⟩
    · rintro (⟨m, hm, -⟩ | ⟨-, houtcome⟩)
      · rw [hm] at hlimit
        exact absurd hlimit (not_limitError_of_isSome rfl)
      · exact houtcome
  · rw [test_eq_of_not_limitError hlimit, Option.map_eq_some_iff]
    constructor
    · rintro ⟨m, hm, hlength⟩
      cases hparse : lib.parse g text { requireFullConsumption := false } with
      | error error =>
          rw [hparse] at hm
          cases hm
      | ok m' =>
          rw [hparse] at hm
          cases hm
          exact .inl ⟨m, rfl, hlength⟩
    · rintro (⟨m, hm, hlength⟩ | ⟨hreported, -⟩)
      · exact ⟨m, by rw [hm]; rfl, hlength⟩
      · exact absurd hreported hlimit

def deepBrackets : List Char := List.replicate 200 '(' ++ List.replicate 200 ')'

/-- The parse of brackets nested too deep fails because of the limit on the depth, but the test of
them tells of a match, and of an empty one. -/
theorem test_beyond_depth :
    bracketLibrary.Built ∧
      FailsWith .depthLimit
        (bracketLibrary.parse 0 (String.ofList deepBrackets) { requireFullConsumption := false }) ∧
      bracketLibrary.test 0 (String.ofList deepBrackets) = some 0 := by
  let start : State := parseStart { requireFullConsumption := false } (.new deepBrackets)
  have hroot : bracketLibrary.parseRoot 0 none = some ⟨0, 4⟩ := by decide +kernel
  have hrun : (bracketLibrary.run ⟨0, 4⟩ start).1.map Derivation.length = some 0 ∧
      (bracketLibrary.run ⟨0, 4⟩ start).2.cursor.calls.exceeded = false ∧
      (bracketLibrary.run ⟨0, 4⟩ start).2.cursor.nesting.exceeded = true := by decide +kernel
  obtain ⟨hlength, hcalls, hnesting⟩ := hrun
  refine ⟨bracketLibrary_built, ?_, ?_⟩
  · rw [parse_eq hroot (Cursor.at?_zero _), String.toList_ofList,
      parseResult_of_nesting hcalls hnesting]
    exact failsWith_ofOffset _ _ _
  · rw [test_eq_leadingOutcome, leadingOutcome, hroot, String.toList_ofList]
    exact hlength

end Library

end Peg
