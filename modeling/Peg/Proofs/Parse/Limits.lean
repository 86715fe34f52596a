import Peg.Proofs.Engine.Lockstep
import Peg.Proofs.Parse.Basic

/-!
# Limits of parses

A parse that reports no limit tells by the calls it made and by how deep they nested which limits
are enough for it: with these the result is the same, with any others the parse reports that a
limit was exceeded. It does so whenever something was refused, wherever that happened. This is what
`Library.run_lockstep` means for the results that `Library.parse_eq` reads off runs.
-/

namespace Peg

def ParseOptions.withLimits (o : ParseOptions) (calls : Option Nat) (depth : Nat) :
    ParseOptions :=
  { o with callLimit := calls, maxDepth := depth }

namespace Library

variable {lib : Library} {g : Nat} {text : String} {options : ParseOptions} {root : RuleRef}
  {cursor : Cursor}

theorem fits_parseStart (options : ParseOptions) (cursor : Cursor) (calls : Option Nat)
    (depth : Nat) : (parseStart options cursor).Fits calls depth where
  unlimited := rfl
  made limit _ := Nat.zero_le limit
  deepest := Nat.zero_le depth

theorem alike_parse (hclosed : lib.Closed) (hroot : lib.parseRoot g options.root = some root)
    (cursor : Cursor) (calls : Option Nat) (depth : Nat) :
    Alike calls depth (lib.run root (parseStart options cursor))
      (lib.run root (parseStart (options.withLimits calls depth) cursor)) :=
  run_lockstep hclosed (hclosed.knows_parseRoot hroot) rfl
    (fits_parseStart options cursor calls depth)

section Parse

variable (hroot : lib.parseRoot g options.root = some root)
  (hcursor : Cursor.at? text.toList options.startOffset = some cursor)

include hroot hcursor

theorem limitError_parse_iff :
    LimitError (lib.parse g text options) ↔
      (lib.run root (parseStart options cursor)).2.cursor.reachedLimit = true := by
  rw [parse_eq hroot hcursor]
  exact limitError_parseResult_iff

theorem parse_withLimits_of_eq {calls : Option Nat} {depth : Nat}
    (hreached : (lib.run root (parseStart options cursor)).2.cursor.reachedLimit = false)
    (heq : lib.run root (parseStart (options.withLimits calls depth) cursor) =
      ((lib.run root (parseStart options cursor)).1,
        (lib.run root (parseStart options cursor)).2.withLimits calls depth)) :
    lib.parse g text (options.withLimits calls depth) = lib.parse g text options := by
  have hother : lib.parse g text (options.withLimits calls depth) = _ := parse_eq hroot hcursor
  rw [hother, heq, parse_eq hroot hcursor, parseResult_of_unlimited hreached]
  exact parseResult_of_unlimited hreached

theorem limitError_withLimits (calls : Option Nat) (depth : Nat)
    (h : (lib.run root
      (parseStart (options.withLimits calls depth) cursor)).2.cursor.reachedLimit = true) :
    LimitError (lib.parse g text (options.withLimits calls depth)) := by
  have heq : lib.parse g text (options.withLimits calls depth) = _ := parse_eq hroot hcursor
  rw [heq]
  exact limitError_parseResult_iff.2 h

theorem failsWith_callLimit_withLimits (calls : Option Nat) (depth : Nat)
    (h : (lib.run root
      (parseStart (options.withLimits calls depth) cursor)).2.cursor.calls.exceeded = true) :
    FailsWith .callLimit (lib.parse g text (options.withLimits calls depth)) := by
  have heq : lib.parse g text (options.withLimits calls depth) = _ := parse_eq hroot hcursor
  rw [heq, parseResult_of_calls h]
  exact failsWith_ofOffset _ _ _

end Parse

theorem fits_of_unlimited (hclosed : lib.Closed)
    (hroot : lib.parseRoot g options.root = some root)
    (hreached : (lib.run root (parseStart options cursor)).2.cursor.reachedLimit = false) :
    (lib.run root (parseStart options cursor)).2.Fits options.callLimit options.maxDepth := by
  rcases alike_parse hclosed hroot cursor options.callLimit options.maxDepth with
    ⟨-, hfits⟩ | hdiverged
  · exact hfits
  · have hsame : options.withLimits options.callLimit options.maxDepth = options := rfl
    rw [hsame] at hdiverged
    cases hdiverged with
    | first hexceeded | nesting _ hexceeded =>
        rw [hreached] at hexceeded
        cases hexceeded
    | calls _ _ hexceeded =>
        rw [Cursor.reachedLimit, hexceeded] at hreached
        cases hreached

/-- Whatever the limits, a parse whose run was refused something reports a limit. If a parse
reports none, then with `made` calls nested `deepest` deep in its run the result is the same under
all limits that allow as much, under a lower call limit it is that the call limit was reached, and
under a lower limit on the depth it is that one of the limits was reached. So higher limits never
change the result. -/
theorem parse_limits (hlib : lib.Built) (text : String) (options : ParseOptions)
    (hroot : lib.parseRoot g options.root = some root)
    (hcursor : Cursor.at? text.toList options.startOffset = some cursor) :
    (∀ calls depth,
      (lib.run root
        (parseStart (options.withLimits calls depth) cursor)).2.cursor.reachedLimit = true →
      LimitError (lib.parse g text (options.withLimits calls depth))) ∧
    (¬ LimitError (lib.parse g text options) →
      ∃ made deepest,
        made = (lib.run root (parseStart options cursor)).2.cursor.calls.made ∧
        deepest = (lib.run root (parseStart options cursor)).2.cursor.nesting.deepest ∧
        ∀ calls depth,
          ((∀ limit ∈ calls, made ≤ limit) → deepest ≤ depth →
            lib.parse g text (options.withLimits calls depth) = lib.parse g text options) ∧
          (deepest ≤ depth → (∃ limit ∈ calls, limit < made) →
            FailsWith .callLimit (lib.parse g text (options.withLimits calls depth))) ∧
          (depth < deepest → LimitError (lib.parse g text (options.withLimits calls depth))) ∧
          ((∀ limit ∈ calls, ∃ old ∈ options.callLimit, old ≤ limit) →
            options.maxDepth ≤ depth →
            lib.parse g text (options.withLimits calls depth) = lib.parse g text options)) := by
  have hclosed := hlib.closed
  have hrefused := limitError_withLimits hroot hcursor
  refine ⟨hrefused, fun hlimits => ?_⟩
  have hreached : (lib.run root (parseStart options cursor)).2.cursor.reachedLimit = false := by
    rw [limitError_parse_iff hroot hcursor, Bool.not_eq_true] at hlimits
    exact hlimits
  have hown := fits_of_unlimited hclosed hroot hreached
  refine ⟨_, _, rfl, rfl, fun calls depth => ?_⟩
  -- the two runs are the same, or they part where the first limit is exceeded in one of them
  rcases alike_parse hclosed hroot cursor calls depth with ⟨heq, hfits⟩ | hdiverged
  · have hsame := parse_withLimits_of_eq hroot hcursor hreached heq
    refine ⟨fun _ _ => hsame, ?_, fun hlt => ?_, fun _ _ => hsame⟩
    · rintro - ⟨limit, hlimit, hlt⟩
      have hle := hfits.made limit hlimit
      omega
    · have hle := hfits.deepest
      omega
  · cases hdiverged with
    | first hexceeded =>
        rw [hreached] at hexceeded
        cases hexceeded
    | @calls limit hlimit hlt hexceeded =>
        have hfails := failsWith_callLimit_withLimits hroot hcursor calls depth hexceeded
        refine ⟨fun hmade _ => ?_, fun _ _ => hfails, fun _ => .inl hfails, fun hraised _ => ?_⟩
        · have hle := hmade limit hlimit
          omega
        · obtain ⟨old, hold, hle⟩ := hraised limit hlimit
          have hmade := hown.made old hold
          omega
    | nesting hlt hexceeded =>
        have hlimit := hrefused calls depth hexceeded
        refine ⟨fun _ hle => ?_, fun hle => ?_, fun _ => hlimit, fun _ hle => ?_⟩
        · omega
        · omega
        · have hdeepest := hown.deepest
          omega

/-- A pair of brackets takes ten calls, nested six deep. -/
theorem parse_limits_brackets :
    bracketLibrary.parseRoot 0 none = some ⟨0, 4⟩ ∧
      Cursor.at? "()".toList 0 = some (.new "()".toList) ∧
      bracketLibrary.parse 0 "()" (ParseOptions.withLimits {} (some 10) 6) =
        bracketLibrary.parse 0 "()" {} ∧
      FailsWith .callLimit (bracketLibrary.parse 0 "()" (ParseOptions.withLimits {} (some 9) 6)) ∧
      LimitError (bracketLibrary.parse 0 "()" (ParseOptions.withLimits {} none 5)) := by
  have hroot : bracketLibrary.parseRoot 0 none = some ⟨0, 4⟩ := by decide +kernel
  have hcursor : Cursor.at? "()".toList 0 = some (.new "()".toList) := by decide +kernel
  have hok : (bracketLibrary.parse 0 "()" {}).toOption.isSome = true := by decide +kernel
  have hmade : (bracketLibrary.run ⟨0, 4⟩
      (parseStart {} (.new "()".toList))).2.cursor.calls.made = 10 := by decide +kernel
  have hdeepest : (bracketLibrary.run ⟨0, 4⟩
      (parseStart {} (.new "()".toList))).2.cursor.nesting.deepest = 6 := by decide +kernel
  obtain ⟨-, hlimits⟩ := parse_limits bracketLibrary_built "()" {} hroot hcursor
  obtain ⟨made, deepest, rfl, rfl, hall⟩ := hlimits (not_limitError_of_isSome hok)
  rw [hmade, hdeepest] at hall
  refine ⟨hroot, hcursor, ?_, ?_, ?_⟩
  · refine (hall (some 10) 6).1 (fun limit hlimit => ?_) (Nat.le_refl 6)
    cases hlimit
    exact Nat.le_refl 10
  · exact (hall (some 9) 6).2.1 (Nat.le_refl 6) ⟨9, rfl, by decide⟩
  · exact (hall none 5).2.2.1 (by decide)

end Library

end Peg
