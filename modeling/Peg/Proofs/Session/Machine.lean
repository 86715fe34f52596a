import Peg.Proofs.Parse.Basic
import Peg.Proofs.Semantics.Machine
import Peg.Proofs.Session.Tape

/-!
# Executions end

`Library.execute` has no fuel: it is defined by recursion on how much deeper executions may nest, on
the text that is unread, and on the parts that are left to try. Main statement:
`Library.executions_end`, wherever steps have led and whatever limits were exceeded on the way, every
execution ends and tells what `Library.write` tells, and so a parse reads its result off one
execution that ends.
-/

namespace Peg

namespace Tape

variable {lib : Library} {text : List Char} {t : Tape}

theorem Reached.inside (hclosed : lib.Closed) (ht : t.Reached lib text) : t.Inside lib := by
  obtain ⟨s, hrecords, -, hinside⟩ := ht.records hclosed
  exact ⟨s.state, hrecords.shows, hinside⟩

def ofOptions (options : ParseOptions) (cursor : Cursor) : Tape :=
  .start ((cursor.withCallLimit options.callLimit).withMaxDepth options.maxDepth) options.memoize

theorem ofOptions_shows (options : ParseOptions) (cursor : Cursor) :
    (ofOptions options cursor).Shows (Library.parseStart options cursor) :=
  .start _ options.memoize

/-- A run tells of an outcome what is to be seen of it on a tape that was empty. -/
structure Tells (result : Option Nat × Tape) (outcome : Option Derivation) : Prop where
  length : result.1 = outcome.map Derivation.length
  events : ∀ d ∈ outcome, result.2.events = d.events

theorem Tells.of_wrote {result : Option Nat × Tape} {outcome : Option Derivation × State}
    (h : Wrote #[] result outcome) : Tells result outcome.1 := by
  refine ⟨h.length, fun d hd => ?_⟩
  have hevents := h.events
  rw [hd] at hevents
  exact hevents

end Tape

namespace Library

variable {lib : Library} {g : Nat} {text : String} {options : ParseOptions} {root : RuleRef}
  {cursor : Cursor}

theorem execute_ofOptions (hlib : lib.Built)
    (hroot : lib.parseRoot g options.root = some root)
    (hcursor : Cursor.at? text.toList options.startOffset = some cursor) :
    ∃ result outcome,
      (lib.execute root (.ofOptions options cursor)).map Subtype.val = some result ∧
      Tape.Tells result outcome ∧ (∀ d ∈ outcome, lib.Derives root cursor.place d) ∧
      lib.parse g text options =
        (lib.parseResult g options text.toList cursor.place outcome result.2.cursor).result := by
  have hclosed := hlib.closed
  have hknows := hclosed.knows_parseRoot hroot
  have hreached : (Tape.ofOptions options cursor).Reached lib text.toList := .start _ _ _ hcursor
  obtain ⟨p, hp, rfl⟩ := Option.map_eq_some_iff.1 hcursor
  obtain ⟨hin, -⟩ := Place.at?_eq_some_iff.1 hp
  have hinside : lib.Inside (parseStart options (.ofPlace text.toList p)) :=
    inside_start hin hin.offset_le options.memoize
  have hwrote := lib.write_wrote (Tape.ofOptions_shows options (.ofPlace text.toList p)) root
  have hderiving := lib.exec_deriving hclosed options.maxDepth
  refine ⟨_, _, execute_eq hlib hknows (hreached.inside hclosed), .of_wrote hwrote, ?_, ?_⟩
  · exact hderiving.allows hknows hinside
  · rw [hwrote.shows.cursor]
    exact parse_eq hroot hcursor

/-- Executions end, in every library that was built, also in one whose rules refer to themselves before
they read anything or repeat what matches nothing: every execution from a tape that steps lead to, and
with it every parse. Each goes through all the checks of the machine, and the result is the one that
`Library.write` finds with the nesting that is left as its fuel. -/
theorem executions_end (hlib : lib.Built) (text : String) :
    (∀ t r, Tape.Reached lib text.toList t → lib.Knows r →
      (lib.execute r t).map Subtype.val = some (lib.write r t)) ∧
    ∀ g options root cursor, lib.parseRoot g options.root = some root →
      Cursor.at? text.toList options.startOffset = some cursor →
      ∃ result outcome,
        (lib.execute root (.ofOptions options cursor)).map Subtype.val = some result ∧
        Tape.Tells result outcome ∧
        lib.parse g text options =
          (lib.parseResult g options text.toList cursor.place outcome result.2.cursor).result := by
  constructor
  · intro t r ht hr
    exact execute_eq hlib hr (ht.inside hlib.closed)
  · intro g options root cursor hroot hcursor
    obtain ⟨result, outcome, hrun, htells, -, hparse⟩ := execute_ofOptions hlib hroot hcursor
    exact ⟨result, outcome, hrun, htells, hparse⟩

/-! ## Rules that refer to themselves first -/

/-- A sum begins with a sum, and a list of sums, which may be empty, is a sum as well. -/
def sums : Draft where
  name := "Sums"
  definitions :=
    [("sum", .choice [.seq [.ref "sum", .literal "+"], .ref "list"]),
      ("list", .zeroOrMore (.ref "sum"))]

def sumLibrary : Library := ((Library.add {} sums).toOption).getD {}

theorem sumLibrary_built : sumLibrary.Built := .single rfl (by decide +kernel)

/-- A run that went as deep as it may and was refused to go on, one more behind it, and a parse that
fails for it. -/
theorem executions_end_sums :
    ∃ root t, sumLibrary.parseRoot 0 none = some root ∧
      Tape.Reached sumLibrary "+".toList t ∧ t.cursor.nesting.exceeded = true ∧
      (sumLibrary.execute root t).map Subtype.val = some (sumLibrary.write root t) ∧
      ∃ result outcome,
        (sumLibrary.execute root (.ofOptions { maxDepth := 9 } (.new "+".toList))).map Subtype.val =
          some result ∧
        Tape.Tells result outcome ∧
        sumLibrary.parse 0 "+" { maxDepth := 9 } =
          (sumLibrary.parseResult 0 { maxDepth := 9 } "+".toList (.start "+".toList) outcome
            result.2.cursor).result := by
  obtain ⟨root, hroot⟩ : ∃ root, sumLibrary.parseRoot 0 none = some root :=
    Option.isSome_iff_exists.1 (by decide +kernel)
  have hcursor : Cursor.at? "+".toList 0 = some (.new "+".toList) := by decide +kernel
  have hknows := sumLibrary_built.closed.knows_parseRoot hroot
  let first : Tape := .ofOptions { maxDepth := 9 } (.new "+".toList)
  have hfirst : first.Reached sumLibrary "+".toList := .start none 9 false hcursor
  have hexceeded : ((sumLibrary.parseRoot 0 none).all fun root =>
      (first.perform sumLibrary (.exec root)).2.cursor.nesting.exceeded) = true := by
    decide +kernel
  rw [hroot] at hexceeded
  have ht : Tape.Reached sumLibrary "+".toList (first.perform sumLibrary (.exec root)).2 :=
    .step hfirst hknows
  obtain ⟨hends, hparses⟩ := executions_end sumLibrary_built "+"
  exact ⟨root, _, hroot, ht, hexceeded, hends _ root ht hknows,
    hparses 0 { maxDepth := 9 } root _ hroot hcursor⟩

end Library

end Peg
