import Peg.Proofs.Engine.Furthest
import Peg.Proofs.Parse.Limits
import Peg.Proofs.Semantics.Matches
import Peg.Proofs.Semantics.Reach

/-!
# Where failures are placed

A parse places a failure at the furthest offset that its run has got to. Unless a limit was exceeded
this is the greatest of the start offset and of the offsets at which matches end in the run without a
memo, also if the run had a memo and so left most of these executions out. Main statement:
`Library.parse_furthest`.
-/

namespace Peg

/-- The options without a memo and with other limits. -/
def ParseOptions.plain (o : ParseOptions) (calls : Option Nat) (depth : Nat) : ParseOptions :=
  { o.withLimits calls depth with memoize := false }

namespace Library

variable {lib : Library} {g : Nat} {text : String} {options : ParseOptions} {root : RuleRef}
  {cursor : Cursor}

theorem ready_parseStart (hin : cursor.place.IsIn cursor.source) (options : ParseOptions) :
    lib.Ready (parseStart options cursor) := by
  let limited := (cursor.withCallLimit options.callLimit).withMaxDepth options.maxDepth
  have hin' : limited.place.IsIn limited.source := hin
  exact ready_start hin' options.memoize

theorem exists_plain_unlimited (hclosed : lib.Closed) (hroot : lib.Knows root)
    (hcursor : Cursor.at? text.toList options.startOffset = some cursor)
    (hreached : (lib.run root (parseStart options cursor)).2.cursor.reachedLimit = false) :
    ∃ depth, (lib.run root
      (parseStart (options.plain none depth) cursor)).2.cursor.reachedLimit = false := by
  have hin := Cursor.isIn_of_at?_eq_some hcursor
  obtain ⟨e, he, -⟩ :=
    (run_follows hclosed hroot (ready_parseStart hin options)).leads.means hreached
  have hafford : (parseStart (options.plain none e.height) cursor).Affords e.height e := by
    refine ⟨rfl, Nat.le_refl _, fun limit hlimit => ?_⟩
    cases hlimit
  obtain ⟨-, hwithin⟩ := (lib.exec_finds hclosed e.height).finds root _ _ e
    (ready_parseStart hin (options.plain none e.height)) he hafford
  exact ⟨e.height, hwithin.unlimited⟩

theorem isGreatest_furthest (options : ParseOptions)
    (hcursor : Cursor.at? text.toList options.startOffset = some cursor) (calls : Option Nat)
    (depth : Nat) :
    IsGreatest
      {q | q = options.startOffset ∨
        0 < lib.endings q depth root (parseStart (options.plain calls depth) cursor)}
      (lib.run root (parseStart (options.plain calls depth) cursor)).2.cursor.furthest := by
  have htops := (lib.tops_exec depth).tops root (parseStart (options.plain calls depth) cursor) rfl
  obtain ⟨p, hp, rfl⟩ := Option.map_eq_some_iff.1 hcursor
  rw [← (Place.at?_eq_some_iff.1 hp).2]
  exact htops

section Run

variable (hlib : lib.Built) (hroot : lib.parseRoot g options.root = some root)
  (hcursor : Cursor.at? text.toList options.startOffset = some cursor)
  (hreached : (lib.run root (parseStart options cursor)).2.cursor.reachedLimit = false)

include hlib hroot hcursor hreached

theorem place_of_furthest :
    (Place.at? text.toList (lib.run root (parseStart options cursor)).2.cursor.furthest).isSome ∧
      options.startOffset ≤ (lib.run root (parseStart options cursor)).2.cursor.furthest ∧
      (lib.run root (parseStart options cursor)).2.cursor.furthest ≤ byteLength text.toList ∧
      ∀ d ∈ (lib.run root (parseStart options cursor)).1, options.startOffset + d.length ≤
        (lib.run root (parseStart options cursor)).2.cursor.furthest := by
  have hknows := hlib.closed.knows_parseRoot hroot
  have hready : lib.Ready (parseStart options cursor) :=
    ready_parseStart (Cursor.isIn_of_at?_eq_some hcursor) options
  obtain ⟨e, he, hspends⟩ := (run_follows hlib.closed hknows hready).leads.means hreached
  obtain ⟨p, hp, rfl⟩ := Option.map_eq_some_iff.1 hcursor
  obtain ⟨hin, hoffset⟩ := Place.at?_eq_some_iff.1 hp
  have hfurthest : (lib.run root (parseStart options (.ofPlace text.toList p))).2.cursor.furthest =
      max p.offset e.reach := hspends.furthest
  obtain ⟨q, hq, hreach⟩ := (IsOffset.of_isIn hin).max (he.isOffset_reach hin)
  rw [hfurthest, ← hreach, ← hoffset]
  refine ⟨?_, ?_, hq.offset_le, fun d hd => ?_⟩
  · exact Option.isSome_iff_exists.2 ⟨q, Place.at?_eq_some_iff.2 ⟨hq, rfl⟩⟩
  · rw [hreach]
    exact Nat.le_max_left _ _
  · rw [Option.mem_def.1 hd] at he
    rw [hreach]
    exact Nat.le_trans he.end_le_reach (Nat.le_max_right _ _)

theorem failureOffset_eq {error : ParseError} (herror : lib.parse g text options = .error error) :
    error.failureOffset = (lib.run root (parseStart options cursor)).2.cursor.furthest ∧
      (error.kind = .incomplete → ∃ d, (lib.run root (parseStart options cursor)).1 = some d) := by
  obtain ⟨-, -, -, hends⟩ := place_of_furthest hlib hroot hcursor hreached
  rw [parse_eq hroot hcursor, parseResult_of_unlimited hreached] at herror
  cases hout : (lib.run root (parseStart options cursor)).1 with
  | none =>
      rw [hout] at herror
      cases herror
      exact ⟨ParseError.failureOffset_ofOffset _ _ _, fun hkind => by simp at hkind⟩
  | some d =>
      have hend := hends d hout
      rw [hout] at herror
      simp only [verdict] at herror
      split at herror
      · cases herror
        obtain ⟨p, hp, rfl⟩ := Option.map_eq_some_iff.1 hcursor
        rw [← (Place.at?_eq_some_iff.1 hp).2] at hend
        refine ⟨?_, fun _ => ⟨d, rfl⟩⟩
        rw [ParseError.failureOffset_ofOffset]
        exact Nat.max_eq_left hend
      · cases herror

end Run

/-- If the run of a parse exceeds no limit, it has got as far as the furthest of the start offset and
of the offsets at which matches end in the run without a memo, whose limits may be any that are
enough for it. There all executions count, wherever they happen and whatever becomes of them.
Every error that the text was not matched or not up to its end stands there: at a character of the
text or its end, not before the start offset, and not before the end of the match of the root rule if
there is one. -/
theorem parse_furthest (hlib : lib.Built) (text : String) (options : ParseOptions)
    (hroot : lib.parseRoot g options.root = some root)
    (hcursor : Cursor.at? text.toList options.startOffset = some cursor) :
    ((lib.run root (parseStart options cursor)).2.cursor.reachedLimit = false →
      (∃ depth, (lib.run root
        (parseStart (options.plain none depth) cursor)).2.cursor.reachedLimit = false) ∧
      ∀ calls depth, (lib.run root
          (parseStart (options.plain calls depth) cursor)).2.cursor.reachedLimit = false →
        IsGreatest
          {q | q = options.startOffset ∨
            0 < lib.endings q depth root (parseStart (options.plain calls depth) cursor)}
          (lib.run root (parseStart options cursor)).2.cursor.furthest) ∧
    ∀ error, lib.parse g text options = .error error →
      error.kind = .noMatch ∨ error.kind = .incomplete →
      (lib.run root (parseStart options cursor)).2.cursor.reachedLimit = false ∧
      error.failureOffset = (lib.run root (parseStart options cursor)).2.cursor.furthest ∧
      (Place.at? text.toList error.failureOffset).isSome ∧
      options.startOffset ≤ error.failureOffset ∧
      error.failureOffset ≤ byteLength text.toList ∧
      (error.kind = .incomplete → ∃ d, (lib.run root (parseStart options cursor)).1 = some d ∧
        options.startOffset + d.length ≤ error.failureOffset) := by
  have hknows := hlib.closed.knows_parseRoot hroot
  refine ⟨fun hreached => ?_, fun error herror hkind => ?_⟩
  · refine ⟨exists_plain_unlimited hlib.closed hknows hcursor hreached, fun calls depth hplain => ?_⟩
    -- The run without a memo gets just as far, and there the matches can be counted.
    have hin := Cursor.isIn_of_at?_eq_some hcursor
    obtain ⟨-, hfurthest⟩ := furthest_eq_of_unlimited hlib.closed hknows
      (ready_parseStart hin options) (ready_parseStart hin (options.plain calls depth))
      rfl rfl hreached hplain
    rw [← hfurthest]
    exact isGreatest_furthest options hcursor calls depth
  · have hlimit : ¬ LimitError (lib.parse g text options) := by
      rintro (⟨error', herror', hkind'⟩ | ⟨error', herror', hkind'⟩)
      all_goals
        rw [herror] at herror'
        cases herror'
        simp [hkind'] at hkind
    rw [limitError_parse_iff hroot hcursor, Bool.not_eq_true] at hlimit
    obtain ⟨hoffset, hmatched⟩ := failureOffset_eq hlib hroot hcursor hlimit herror
    obtain ⟨hplace, hstart, hend, hends⟩ := place_of_furthest hlib hroot hcursor hlimit
    rw [hoffset]
    refine ⟨hlimit, rfl, hplace, hstart, hend, fun hincomplete => ?_⟩
    obtain ⟨d, hd⟩ := hmatched hincomplete
    exact ⟨d, hd, hends d hd⟩

/-- The last bracket is open, so the brackets match nothing, but matches have been found up to it. -/
theorem parse_furthest_brackets :
    bracketLibrary.Built ∧ bracketLibrary.parseRoot 0 none = some ⟨0, 4⟩ ∧
      Cursor.at? "(()".toList 0 = some (.new "(()".toList) ∧
      ∃ error, bracketLibrary.parse 0 "(()" {} = .error error ∧ error.kind = .incomplete ∧
        error.failureOffset = 3 ∧ (Place.at? "(()".toList error.failureOffset).isSome := by
  have hroot : bracketLibrary.parseRoot 0 none = some ⟨0, 4⟩ := by decide +kernel
  have hcursor : Cursor.at? "(()".toList 0 = some (.new "(()".toList) := by decide +kernel
  have hkinds : (match bracketLibrary.parse 0 "(()" {} with
      | .error error => some error.kind
      | .ok _ => none) = some .incomplete := by decide +kernel
  have hfurthest : (bracketLibrary.run ⟨0, 4⟩
      (parseStart {} (.new "(()".toList))).2.cursor.furthest = 3 := by decide +kernel
  obtain ⟨error, herror, hkind⟩ : ∃ error, bracketLibrary.parse 0 "(()" {} = .error error ∧
      error.kind = .incomplete := by
    cases hparse : bracketLibrary.parse 0 "(()" {} with
    | ok m =>
        rw [hparse] at hkinds
        cases hkinds
    | error error =>
        rw [hparse] at hkinds
        exact ⟨error, rfl, Option.some.inj hkinds⟩
  obtain ⟨-, hoffset, hplace, -⟩ :=
    (parse_furthest bracketLibrary_built "(()" {} hroot hcursor).2 error herror (.inr hkind)
  exact ⟨bracketLibrary_built, hroot, hcursor, error, herror, hkind, hoffset.trans hfurthest, hplace⟩

end Library

end Peg
