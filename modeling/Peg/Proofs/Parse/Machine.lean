import Peg.Proofs.Engine.Counters
import Peg.Proofs.Match.Walk
import Peg.Proofs.Session.Machine

/-!
# Parses with every check

`Library.parse?` is a parse that fails altogether if any check fails on the way: when the root is
reached on the way to it, while it is executed, where an error is placed, or as the match is first
looked at. Main statement: `Library.checks_hold`, with a library that was built no check is ever
missed, be it by the parse or by what a match or an error can be asked for.
-/

namespace Peg

namespace Library

/-! ## The checks of a parse -/

/-- The rule to begin a parse with, at the end of the way to what a name stands for or of the way that
the grammar keeps. A name may stand for no rule, and then there is none. -/
def root? (lib : Library) (kept : Array Target) (g : Nat) : Option String → Option (Option RuleRef)
  | some name =>
    match lib.target? g name with
    | none => some none
    | some target => (lib.resolve? g target).map some
  | none => ((kept[g]?).bind (lib.resolve? g)).map some

/-- What a parse makes of an execution: the view of the match, or an error with its place. -/
def finish? (lib : Library) (options : ParseOptions) (source : List Char) (result : Option Nat)
    (t : Tape) : Option (Except ParseError View) :=
  let fail (kind : ParseErrorKind) (offset : Nat) : Option (Except ParseError View) :=
    (ParseError.ofOffset? kind source offset).map .error
  let furthest := t.cursor.furthest
  if t.cursor.calls.exceeded then fail .callLimit furthest
  else if t.cursor.nesting.exceeded then fail .depthLimit furthest
  else
    match result with
    | none => fail .noMatch furthest
    | some n => do
      let finish ← sumWithin? (byteLength source) options.startOffset n
      if options.requireFullConsumption && finish != byteLength source then
        fail .incomplete (max furthest finish)
      else
        let last ← difference? t.events.size 1
        (View.ofRange? lib t.events 0 last options.startOffset).map .ok

/-- Parses a text. The number of bytes to be parsed is only noted. -/
def parse? (lib : Library) (kept : Array Target) (g : Nat) (text : String)
    (options : ParseOptions) : Option (Except ParseError View) := do
  let source := text.toList
  let size := byteLength source
  match ← lib.root? kept g options.root with
  | none => (ParseError.ofOffset? (.unknownRule (options.root.getD "")) source 0).map .error
  | some root =>
    match Cursor.at? source options.startOffset with
    | none =>
      (ParseError.ofOffset? .invalidOffset source (min options.startOffset size)).map .error
    | some cursor =>
      let _ ← difference? size options.startOffset
      let ⟨(result, t), _⟩ ← lib.execute root (.ofOptions options cursor)
      lib.finish? options source result t

/-- A view of the match, or the same error. -/
inductive ReadsResult (lib : Library) (source : List Char) :
    Except ParseError View → Except ParseError Match → Prop
  | error {kind offset} : ReadsResult lib source (.error (.ofOffset kind source offset))
      (.error (.ofOffset kind source offset))
  | ok {v m} : v.Reads lib source m → ReadsResult lib source (.ok v) (.ok m)

variable {lib : Library} {kept : Array Target} {g : Nat} {grammar : Grammar} {text : String}
  {options : ParseOptions} {source : List Char}

/-! ## The checks are passed -/

theorem root?_eq_some (hlib : lib.Keeps kept) (hg : lib.grammar? g = some grammar)
    (root : Option String) : lib.root? kept g root = some (lib.parseRoot g root) := by
  cases root with
  | none => simp only [root?, parseRoot, hlib.follow hg, hg, Option.map_some]
  | some name =>
      have hrel := lib.target?_rel g name
      simp only [root?, parseRoot]
      generalize htarget : lib.target? g name = target at hrel ⊢
      generalize hlookup : lib.lookup g name = found at hrel ⊢
      cases hrel with
      | none => rfl
      | some hleads =>
          have hknows := hlib.built.closed.lookup hlookup
          simp only [hleads.resolve hknows, Option.map_some]

theorem readsResult_error (kind : ParseErrorKind) (source : List Char) (offset : Nat) :
    ∃ result, (ParseError.ofOffset? kind source offset).map Except.error = some result ∧
      lib.ReadsResult source result (.error (.ofOffset kind source offset)) := by
  rw [ParseError.ofOffset?_eq_some]
  exact ⟨_, rfl, .error⟩

theorem reads_events {d : Derivation} {p : Place} (hd : d.Wraps lib.isWrapper) (hfits : d.Fits p)
    (hp : p.IsIn source) :
    ∃ last v, difference? d.events.size 1 = some last ∧
      View.ofRange? lib d.events 0 last p.offset = some v ∧
      v.Reads lib source (.ofDerivation lib source p d) := by
  have hevents : d.events = d.flat.toArray := by rw [← Derivation.events_toList]
  have hlength := d.length_flat
  have hsize : d.events.size = d.flat.length := by rw [hevents, List.size_toArray]
  have hstands : Stands d.events 0 d.flat := by
    have happend := Stands.of_append #[] #[] d.flat
    rw [hevents]
    simpa using happend
  refine ⟨0 + d.flat.length - 1, _, ?_, View.ofRange?_eq_some hd hstands _ _,
    .intro hd hfits hp hstands⟩
  rw [hsize, Nat.zero_add]
  exact difference?_eq_some (by omega)

theorem finish?_eq_some {root : RuleRef} {p : Place} {result : Option Nat} {t : Tape}
    {outcome : Option Derivation} (hp : Place.at? source options.startOffset = some p)
    (htells : Tape.Tells (result, t) outcome) (hderives : ∀ d ∈ outcome, lib.Derives root p d) :
    ∃ parsed, lib.finish? options source result t = some parsed ∧
      lib.ReadsResult source parsed
        (lib.parseResult g options source p outcome t.cursor).result := by
  obtain ⟨hin, hoffset⟩ := Place.at?_eq_some_iff.1 hp
  unfold finish?
  simp only
  by_cases hcalls : t.cursor.calls.exceeded = true
  · rw [if_pos hcalls, parseResult_of_calls hcalls]
    exact readsResult_error _ _ _
  rw [if_neg hcalls]
  rw [Bool.not_eq_true] at hcalls
  by_cases hnesting : t.cursor.nesting.exceeded = true
  · rw [if_pos hnesting, parseResult_of_nesting hcalls hnesting]
    exact readsResult_error _ _ _
  rw [if_neg hnesting]
  rw [Bool.not_eq_true] at hnesting
  rw [parseResult_of_unlimited (Cursor.reachedLimit_eq_false_iff.2 ⟨hcalls, hnesting⟩)]
  obtain rfl : result = outcome.map Derivation.length := htells.length
  cases outcome with
  | none => exact readsResult_error _ _ _
  | some d =>
      have hd := hderives d rfl
      have hsum : sumWithin? (byteLength source) options.startOffset d.length =
          some (p.offset + d.length) := by
        rw [← hoffset]
        exact sumWithin?_eq_some (hin.advance hd.covers).offset_le
      obtain ⟨last, v, hlast, hv, hreads⟩ := reads_events hd.wraps hd.fits hin
      have hevents : t.events = d.events := htells.events d rfl
      simp only [Option.map_some, hsum, Option.bind_eq_bind, Option.bind_some, verdict]
      split
      · exact readsResult_error _ _ _
      · rw [hevents, hlast, Option.bind_some, ← hoffset, hv]
        exact ⟨_, rfl, .ok hreads⟩

theorem parse?_eq_some (hlib : lib.Keeps kept) (hg : lib.grammar? g = some grammar)
    (text : String) (options : ParseOptions) :
    ∃ parsed, lib.parse? kept g text options = some parsed ∧
      lib.ReadsResult text.toList parsed (lib.parse g text options) := by
  unfold parse?
  simp only [root?_eq_some hlib hg, Option.bind_eq_bind, Option.bind_some]
  cases hroot : lib.parseRoot g options.root with
  | none =>
      have hparse : lib.parse g text options =
          .error (.ofOffset (.unknownRule (options.root.getD "")) text.toList 0) := by
        simp [parse, parseLogged, hroot]
      rw [hparse]
      exact readsResult_error _ _ _
  | some root =>
      cases hcursor : Cursor.at? text.toList options.startOffset with
      | none =>
          have hparse : lib.parse g text options = .error (.ofOffset .invalidOffset text.toList
              (min options.startOffset (byteLength text.toList))) := by
            simp [parse, parseLogged, hroot, hcursor]
          rw [hparse]
          exact readsResult_error _ _ _
      | some cursor =>
          obtain ⟨⟨result, t⟩, outcome, hrun, htells, hderives, hparse⟩ :=
            execute_ofOptions hlib.built hroot hcursor
          obtain ⟨p, hp, rfl⟩ := Option.map_eq_some_iff.1 hcursor
          obtain ⟨hin, hoffset⟩ := Place.at?_eq_some_iff.1 hp
          have hunread : difference? (byteLength text.toList) options.startOffset =
              some (byteLength text.toList - options.startOffset) := by
            rw [← hoffset]
            exact difference?_eq_some hin.offset_le
          obtain ⟨hmoves, hrun⟩ := exists_of_map_val hrun
          rw [hparse]
          simp only [hunread, Option.bind_some, hrun]
          exact finish?_eq_some hp htells hderives

theorem stats_parseStart (options : ParseOptions) (cursor : Cursor) :
    (parseStart options cursor).stats = {} := by
  unfold parseStart
  cases options.memoize <;> rfl

/-- The statistics of the memo are the only numbers that no check bounds. They count executions. -/
theorem total_execute (hlib : lib.Built) {root : RuleRef} {cursor : Cursor}
    (hroot : lib.parseRoot g options.root = some root)
    (hcursor : Cursor.at? text.toList options.startOffset = some cursor) :
    ∃ result, (lib.execute root (.ofOptions options cursor)).map Subtype.val = some result ∧
      ∀ recording ∈ result.2.recording, recording.stats.total =
        lib.asked options.maxDepth root (parseStart options cursor) := by
  have hknows := hlib.closed.knows_parseRoot hroot
  have hreached : (Tape.ofOptions options cursor).Reached lib text.toList := .start _ _ _ hcursor
  have hwrote := lib.write_wrote (Tape.ofOptions_shows options cursor) root
  refine ⟨_, execute_eq hlib hknows (hreached.inside hlib.closed), fun recording hrecording => ?_⟩
  have hcounts := lib.total_exec options.maxDepth
  have hmemo := (hcounts.forward root (parseStart options cursor)).memo
  have htotal := hcounts.total root (parseStart options cursor)
  have hnew := stats_parseStart options cursor
  have hrel := hwrote.shows.recording
  change Option.Rel _ _ (lib.exec options.maxDepth root (parseStart options cursor)).2.memo at hrel
  rw [Option.mem_def.1 hrecording] at hrel
  rw [hnew] at htotal
  unfold State.stats at htotal
  generalize (lib.exec options.maxDepth root (parseStart options cursor)).2.memo = memo
    at hrel hmemo htotal
  cases hrel with
  | @some _ memo hshows =>
      have hsum := htotal hmemo.symm
      rw [hshows.stats, ← Nat.zero_add (lib.asked _ _ _)]
      exact hsum

theorem counters_fit {root : RuleRef} {cursor : Cursor} {m : Moment}
    (hasked : lib.asked options.maxDepth root (parseStart options cursor) < 2 ^ 64)
    (hm : lib.Precedes ⟨.consult root, [], parseStart options cursor⟩ m) :
    m.state.stats.hits < 2 ^ 64 ∧ m.state.stats.failureHits < 2 ^ 64 ∧
      m.state.stats.misses < 2 ^ 64 := by
  have hfits := (total_le_asked (stats_parseStart options cursor) hm).trans_lt hasked
  rw [MemoStats.total] at hfits
  omega

/-- In a library that was built no check is ever missed, whatever the text and the options are, and
along the ways to their roots that its grammars keep. A parse passes all its checks and ends as
`Library.parse` does: with an error, which can be reported, or with the view of a match, of which every
node, however it is reached, passes the checks for whatever it can be asked for. What the checks do not
bound are the counters of the memo. They count the executions that are asked for, and none of them
overflows at any moment if these are fewer than `2 ^ 64`. -/
theorem checks_hold (hlib : lib.Built) (hg : lib.grammar? g = some grammar) (text : String)
    (options : ParseOptions) :
    (∃ kept, lib.Keeps kept) ∧
    (∀ kept, lib.Keeps kept → ∃ parsed, lib.parse? kept g text options = some parsed ∧
      match parsed with
      | .error e => lib.parse g text options = .error e ∧
          e.report? (byteLength text.toList) = some e.report
      | .ok v => ∃ m, lib.parse g text options = .ok m ∧
          ∀ w, v.Descends lib text.toList w → ∃ n ∈ m.nodes, w.Passes lib text.toList n) ∧
    ∀ root cursor, lib.parseRoot g options.root = some root →
      Cursor.at? text.toList options.startOffset = some cursor →
      (∃ result, (lib.execute root (.ofOptions options cursor)).map Subtype.val = some result ∧
        ∀ recording ∈ result.2.recording, recording.stats.total =
          lib.asked options.maxDepth root (parseStart options cursor)) ∧
      (lib.asked options.maxDepth root (parseStart options cursor) < 2 ^ 64 →
        ∀ m, lib.Precedes ⟨.consult root, [], parseStart options cursor⟩ m →
          m.state.stats.hits < 2 ^ 64 ∧ m.state.stats.failureHits < 2 ^ 64 ∧
            m.state.stats.misses < 2 ^ 64) := by
  refine ⟨hlib.exists_keeps, fun kept hkeeps => ?_, fun root cursor hroot hcursor =>
    ⟨total_execute hlib hroot hcursor, fun hasked m hm => counters_fit hasked hm⟩⟩
  obtain ⟨parsed, hparsed, hresult⟩ := parse?_eq_some hkeeps hg text options
  refine ⟨parsed, hparsed, ?_⟩
  generalize lib.parse g text options = result at hresult
  cases hresult with
  | @error kind offset => exact ⟨rfl, ParseError.report?_ofOffset kind text.toList offset⟩
  | @ok v m hreads =>
      refine ⟨m, rfl, fun w hw => ?_⟩
      obtain ⟨n, hn, hread⟩ := hreads.descends hw
      exact ⟨n, hn, hread.passes⟩

/-- Brackets inside brackets, and an offset far behind the text. -/
theorem checks_hold_brackets :
    ∃ kept grammar, bracketLibrary.Keeps kept ∧ bracketLibrary.grammar? 0 = some grammar ∧
      (∃ v m, bracketLibrary.parse? kept 0 "(())" {} = some (.ok v) ∧
        bracketLibrary.parse 0 "(())" {} = .ok m ∧
        ∀ w, v.Descends bracketLibrary "(())".toList w →
          ∃ n ∈ m.nodes, w.Passes bracketLibrary "(())".toList n) ∧
      ∃ e, bracketLibrary.parse? kept 0 "(()"
          { startOffset := 2 ^ 64 - 1, maxDepth := 2 ^ 64 - 1 } = some (.error e) ∧
        bracketLibrary.parse 0 "(()" { startOffset := 2 ^ 64 - 1, maxDepth := 2 ^ 64 - 1 } =
          .error e ∧
        e.report? (byteLength "(()".toList) = some e.report := by
  obtain ⟨grammar, hg⟩ : ∃ grammar, bracketLibrary.grammar? 0 = some grammar :=
    Option.isSome_iff_exists.1 (by decide +kernel)
  have hok : (bracketLibrary.parse 0 "(())" {}).toOption.isSome = true := by decide +kernel
  have herror : (bracketLibrary.parse 0 "(()"
      { startOffset := 2 ^ 64 - 1, maxDepth := 2 ^ 64 - 1 }).toOption.isSome = false := by
    decide +kernel
  obtain ⟨⟨kept, hkeeps⟩, hparses, -⟩ := checks_hold bracketLibrary_built hg "(())" {}
  obtain ⟨-, hfails, -⟩ := checks_hold bracketLibrary_built hg "(()"
    { startOffset := 2 ^ 64 - 1, maxDepth := 2 ^ 64 - 1 }
  refine ⟨kept, grammar, hkeeps, hg, ?_, ?_⟩
  · obtain ⟨parsed, hparsed, hresult⟩ := hparses kept hkeeps
    cases parsed with
    | error e =>
        rw [hresult.1] at hok
        cases hok
    | ok v =>
        obtain ⟨m, hm, hnodes⟩ := hresult
        exact ⟨v, m, hparsed, hm, hnodes⟩
  · obtain ⟨parsed, hparsed, hresult⟩ := hfails kept hkeeps
    cases parsed with
    | error e => exact ⟨e, hparsed, hresult.1, hresult.2⟩
    | ok v =>
        obtain ⟨m, hm, -⟩ := hresult
        rw [hm] at herror
        cases herror

end Library

end Peg
