import Peg.Proofs.Parse.Furthest
import Peg.Proofs.Semantics.Refusal

/-!
# Where limits are reported

A parse that exceeds a limit reports it at the furthest offset of its run. Compared with the run of
the same parse under limits that are enough, this offset is no further, unless a scan was going on
when something was refused for the first time: then it may also be the end of the text. Main
statement: `Library.parse_refused`.
-/

namespace Peg

namespace Library

variable {lib : Library} {g : Nat} {text : String} {options : ParseOptions} {root : RuleRef}
  {cursor : Cursor}

theorem exists_start_of_limitError (h : LimitError (lib.parse g text options)) :
    ∃ root cursor, lib.parseRoot g options.root = some root ∧
      Cursor.at? text.toList options.startOffset = some cursor := by
  cases hroot : lib.parseRoot g options.root with
  | none =>
      simp only [parse, parseLogged, hroot] at h
      rcases h with h | h
      · cases h.eq
      · cases h.eq
  | some root =>
      cases hcursor : Cursor.at? text.toList options.startOffset with
      | none =>
          simp only [parse, parseLogged, hroot, hcursor] at h
          rcases h with h | h
          · cases h.eq
          · cases h.eq
      | some cursor => exact ⟨root, cursor, rfl, rfl⟩

theorem failureOffset_of_reachedLimit (hroot : lib.parseRoot g options.root = some root)
    (hcursor : Cursor.at? text.toList options.startOffset = some cursor)
    (hreached : (lib.run root (parseStart options cursor)).2.cursor.reachedLimit = true)
    {error : ParseError} (herror : lib.parse g text options = .error error) :
    error.failureOffset = (lib.run root (parseStart options cursor)).2.cursor.furthest := by
  rw [parse_eq hroot hcursor] at herror
  cases hcalls : (lib.run root (parseStart options cursor)).2.cursor.calls.exceeded with
  | true =>
      rw [parseResult_of_calls hcalls] at herror
      cases herror
      exact ParseError.failureOffset_ofOffset _ _ _
  | false =>
      rw [Cursor.reachedLimit, hcalls, Bool.false_or] at hreached
      rw [parseResult_of_nesting hcalls hreached] at herror
      cases herror
      exact ParseError.failureOffset_ofOffset _ _ _

theorem furthest_mem_text (hclosed : lib.Closed) (hroot : lib.Knows root)
    (hcursor : Cursor.at? text.toList options.startOffset = some cursor) :
    options.startOffset ≤ (lib.run root (parseStart options cursor)).2.cursor.furthest ∧
      (lib.run root (parseStart options cursor)).2.cursor.furthest ≤ byteLength text.toList := by
  have hready : lib.Ready (parseStart options cursor) :=
    ready_parseStart (Cursor.isIn_of_at?_eq_some hcursor) options
  obtain ⟨p, hp, rfl⟩ := Option.map_eq_some_iff.1 hcursor
  obtain ⟨hin, hoffset⟩ := Place.at?_eq_some_iff.1 hp
  have hinside : lib.Inside (parseStart options (.ofPlace text.toList p)) := ⟨hready, hin.offset_le⟩
  have hlater := lib.run_forward root (parseStart options (.ofPlace text.toList p))
  have hend := ((exec_deriving hclosed options.maxDepth).inside hroot hinside).furthest
  rw [← hoffset]
  exact ⟨hlater.furthest, hend.trans (Nat.le_of_eq (congrArg byteLength hlater.source))⟩

theorem furthest_of_refused (hclosed : lib.Closed) (hroot : lib.Knows root)
    (hcursor : Cursor.at? text.toList options.startOffset = some cursor)
    (hreached : (lib.run root (parseStart options cursor)).2.cursor.reachedLimit = true)
    {depth : Nat} (hunlimited : (lib.run root
      (parseStart (options.withLimits none depth) cursor)).2.cursor.reachedLimit = false) :
    (lib.run root (parseStart options cursor)).2.cursor.furthest ≤
        (lib.run root (parseStart (options.withLimits none depth) cursor)).2.cursor.furthest ∨
      byteLength text.toList ≤ (lib.run root (parseStart options cursor)).2.cursor.furthest ∧
        0 < lib.cutScans options.maxDepth root (parseStart options cursor) := by
  have hready (options : ParseOptions) : lib.Ready (parseStart options cursor) :=
    ready_parseStart (Cursor.isIn_of_at?_eq_some hcursor) options
  obtain ⟨p, -, rfl⟩ := Option.map_eq_some_iff.1 hcursor
  -- The run that is refused nothing gets as far as the outcome of the root rule reaches.
  obtain ⟨e, hyields, hspends⟩ := (run_follows hclosed hroot
    (hready (options.withLimits none depth))).leads.means hunlimited
  have hfurthest : (lib.run root (parseStart (options.withLimits none depth)
      (.ofPlace text.toList p))).2.cursor.furthest = max p.offset e.reach := hspends.furthest
  obtain ⟨-, hwithin⟩ := (exec_refusing hclosed options.maxDepth).struck root _ _ e hroot
    (hready options) rfl hyields hreached
  have hhorizon : (parseStart options (.ofPlace text.toList p)).horizon e = max p.offset e.reach :=
    Nat.max_eq_left (Nat.le_max_left _ _)
  have hsource : (lib.exec options.maxDepth root
      (parseStart options (.ofPlace text.toList p))).2.cursor.source = text.toList :=
    (lib.exec_forward options.maxDepth root _).source
  rw [hhorizon, hsource] at hwithin
  rw [hfurthest]
  exact hwithin

/-- A parse reports a limit that was exceeded at the furthest offset of its run, between the start
offset and the end of the text. If the same parse reports none with any number of calls and enough
depth, the offset is no further than the run of this parse gets, or it is the end of the text and a
scan was going on when something was refused for the first time. So in a library without scans
limits are never reported further on than matches reach. -/
theorem parse_refused (hlib : lib.Built) (text : String) (options : ParseOptions)
    (depth : Nat) (hunlimited : ¬ LimitError (lib.parse g text (options.withLimits none depth)))
    (error : ParseError) (herror : lib.parse g text options = .error error)
    (hkind : error.kind = .callLimit ∨ error.kind = .depthLimit) :
    ∃ root cursor, lib.parseRoot g options.root = some root ∧
      Cursor.at? text.toList options.startOffset = some cursor ∧
      error.failureOffset = (lib.run root (parseStart options cursor)).2.cursor.furthest ∧
      options.startOffset ≤ error.failureOffset ∧ error.failureOffset ≤ byteLength text.toList ∧
      (error.failureOffset ≤
          (lib.run root (parseStart (options.withLimits none depth) cursor)).2.cursor.furthest ∨
        error.failureOffset = byteLength text.toList ∧
          0 < lib.cutScans options.maxDepth root (parseStart options cursor)) ∧
      (lib.ScanFree → error.failureOffset ≤
        (lib.run root (parseStart (options.withLimits none depth) cursor)).2.cursor.furthest) := by
  have hlimit : LimitError (lib.parse g text options) :=
    hkind.imp (fun h => ⟨error, herror, h⟩) fun h => ⟨error, herror, h⟩
  obtain ⟨root, cursor, hroot, hcursor⟩ := exists_start_of_limitError hlimit
  have hknows := hlib.closed.knows_parseRoot hroot
  have hreached := (limitError_parse_iff hroot hcursor).1 hlimit
  have hunreached : (lib.run root
      (parseStart (options.withLimits none depth) cursor)).2.cursor.reachedLimit = false := by
    have hiff : LimitError (lib.parse g text (options.withLimits none depth)) ↔ _ :=
      limitError_parse_iff hroot hcursor
    rw [hiff, Bool.not_eq_true] at hunlimited
    exact hunlimited
  have hfurthest := furthest_of_refused hlib.closed hknows hcursor hreached hunreached
  obtain ⟨hstart, hend⟩ := furthest_mem_text hlib.closed hknows hcursor
  rw [failureOffset_of_reachedLimit hroot hcursor hreached herror]
  refine ⟨root, cursor, hroot, hcursor, rfl, hstart, hend, ?_, fun hfree => ?_⟩
  · exact hfurthest.imp id fun hscan => ⟨Nat.le_antisymm hend hscan.1, hscan.2⟩
  · rcases hfurthest with hle | ⟨-, hpos⟩
    · exact hle
    · rw [cutScans_eq_zero hfree] at hpos
      exact absurd hpos (Nat.lt_irrefl 0)

/-- With five calls the opening bracket is matched, but not the closing one. -/
theorem parse_refused_brackets :
    bracketLibrary.Built ∧
      ¬ LimitError (bracketLibrary.parse 0 "()" (ParseOptions.withLimits {} none 512)) ∧
      ∃ error, bracketLibrary.parse 0 "()" (ParseOptions.withLimits {} (some 5) 512) = .error error ∧
        error.kind = .callLimit ∧ error.failureOffset ≤ 2 := by
  have hunlimited :
      ¬ LimitError (bracketLibrary.parse 0 "()" (ParseOptions.withLimits {} none 512)) := by
    decide +kernel
  have hfails : FailsWith .callLimit
      (bracketLibrary.parse 0 "()" (ParseOptions.withLimits {} (some 5) 512)) := by decide +kernel
  have hroot : bracketLibrary.parseRoot 0 none = some ⟨0, 4⟩ := by decide +kernel
  have hcursor : Cursor.at? "()".toList 0 = some (.new "()".toList) := by decide +kernel
  have hfurthest : (bracketLibrary.run ⟨0, 4⟩
      (parseStart (ParseOptions.withLimits {} none 512) (.new "()".toList))).2.cursor.furthest =
        2 := by decide +kernel
  have hfree : bracketLibrary.ScanFree := by decide +kernel
  obtain ⟨error, herror, hkind⟩ := hfails
  obtain ⟨root, cursor, hroot', hcursor', -, -, -, -, hle⟩ := parse_refused bracketLibrary_built "()"
    (ParseOptions.withLimits {} (some 5) 512) 512 hunlimited error herror (.inl hkind)
  cases hroot.symm.trans hroot'
  cases hcursor.symm.trans hcursor'
  exact ⟨bracketLibrary_built, hunlimited, error, herror, hkind, hfurthest ▸ hle hfree⟩

end Library

/-! ## A scan that is cut short -/

/-- Letters up to a place where none of them is ahead. -/
def letters : Draft where
  name := "Run"
  definitions := [("run", .upTo (.notAhead (.literal "a")))]

def letterLibrary : Library := ((Library.add {} letters).toOption).getD {}

/-- No letter is ahead of the text, so nothing is matched in it and no matches are found. With one
call the test of the scan is refused at every character, and the limit is reported at the end of the
text. -/
theorem Library.parse_refused_letters :
    letterLibrary.Built ∧ letterLibrary.parseRoot 0 none = some ⟨0, 2⟩ ∧
      FailsWith .noMatch (letterLibrary.parse 0 "bcd" (ParseOptions.withLimits {} none 513)) ∧
      (letterLibrary.run ⟨0, 2⟩ (parseStart (ParseOptions.withLimits {} none 513)
        (.new "bcd".toList))).2.cursor.furthest = 0 ∧
      ∃ error, letterLibrary.parse 0 "bcd" (ParseOptions.withLimits {} (some 1) 512) = .error error ∧
        error.kind = .callLimit ∧ error.failureOffset = 3 := by
  have hroot : letterLibrary.parseRoot 0 none = some ⟨0, 2⟩ := by decide +kernel
  have hcursor : Cursor.at? "bcd".toList 0 = some (.new "bcd".toList) := by decide +kernel
  have hfails : FailsWith .callLimit
      (letterLibrary.parse 0 "bcd" (ParseOptions.withLimits {} (some 1) 512)) := by decide +kernel
  have hreached : (letterLibrary.run ⟨0, 2⟩ (parseStart (ParseOptions.withLimits {} (some 1) 512)
      (.new "bcd".toList))).2.cursor.reachedLimit = true := by decide +kernel
  have hfurthest : (letterLibrary.run ⟨0, 2⟩ (parseStart (ParseOptions.withLimits {} (some 1) 512)
      (.new "bcd".toList))).2.cursor.furthest = 3 := by decide +kernel
  obtain ⟨error, herror, hkind⟩ := hfails
  have hoffset : error.failureOffset = _ :=
    failureOffset_of_reachedLimit hroot hcursor hreached herror
  exact ⟨.single rfl (by decide +kernel), hroot, by decide +kernel, by decide +kernel, error, herror,
    hkind, hoffset.trans hfurthest⟩

end Peg
