import Peg.Parse.Basic
import Peg.Proofs.Engine.Step
import Peg.Proofs.Grammar.Built
import Peg.Proofs.Text.Place

/-!
# Results of parses

What a parse makes of the end of its run. Main statements: `Library.parse_eq`, a parse reads its
result off one run of the root rule, and `Library.limitError_parseResult_iff`, it reports a limit
exactly if the run exceeded one.
-/

namespace Peg

@[simp] theorem ParseError.kind_ofOffset (kind : ParseErrorKind) (source : List Char)
    (offset : Nat) : (ParseError.ofOffset kind source offset).kind = kind := by
  unfold ParseError.ofOffset
  cases Position.at? source offset <;> rfl

@[simp] theorem ParseError.failureOffset_ofOffset (kind : ParseErrorKind) (source : List Char)
    (offset : Nat) : (ParseError.ofOffset kind source offset).failureOffset = offset := by
  unfold ParseError.ofOffset
  cases Position.at? source offset <;> rfl

def FailsWith (kind : ParseErrorKind) (result : Except ParseError Match) : Prop :=
  ∃ error, result = .error error ∧ error.kind = kind

instance (kind : ParseErrorKind) (result : Except ParseError Match) :
    Decidable (FailsWith kind result) :=
  match result with
  | .ok _ => .isFalse nofun
  | .error error =>
    decidable_of_iff (error.kind = kind) ⟨fun h => ⟨error, rfl, h⟩, fun ⟨_, rfl, h⟩ => h⟩

/-- The parse failed because a limit was exceeded. -/
def LimitError (result : Except ParseError Match) : Prop :=
  FailsWith .callLimit result ∨ FailsWith .depthLimit result

instance (result : Except ParseError Match) : Decidable (LimitError result) :=
  inferInstanceAs (Decidable (_ ∨ _))

theorem not_limitError_of_isSome {result : Except ParseError Match}
    (h : result.toOption.isSome = true) : ¬ LimitError result := by
  rintro (⟨error, rfl, -⟩ | ⟨error, rfl, -⟩)
  · cases h
  · cases h

theorem failsWith_ofOffset (kind : ParseErrorKind) (source : List Char) (offset : Nat) :
    FailsWith kind (.error (.ofOffset kind source offset)) :=
  ⟨_, rfl, ParseError.kind_ofOffset kind source offset⟩

theorem FailsWith.eq {kind kind' : ParseErrorKind} {source : List Char} {offset : Nat}
    (h : FailsWith kind (.error (.ofOffset kind' source offset))) : kind' = kind := by
  obtain ⟨error, herror, hkind⟩ := h
  cases herror
  rw [← hkind, ParseError.kind_ofOffset]

theorem Cursor.isIn_of_at?_eq_some {source : List Char} {offset : Nat} {cursor : Cursor}
    (h : Cursor.at? source offset = some cursor) : cursor.place.IsIn cursor.source := by
  obtain ⟨p, hp, rfl⟩ := Option.map_eq_some_iff.1 h
  exact (Place.at?_eq_some_iff.1 hp).1

namespace Library

variable (lib : Library) (g : Nat)

/-- The state in which the run of a parse begins. -/
def parseStart (options : ParseOptions) (cursor : Cursor) : State :=
  .start ((cursor.withCallLimit options.callLimit).withMaxDepth options.maxDepth) options.memoize

/-- What a parse makes of an outcome if no limit was exceeded. -/
def verdict (options : ParseOptions) (source : List Char) (place : Place)
    (outcome : Option Derivation) (furthest : Nat) : Except ParseError Match :=
  match outcome with
  | none => .error (.ofOffset .noMatch source furthest)
  | some d =>
    if options.requireFullConsumption && place.offset + d.length != byteLength source then
      .error (.ofOffset .incomplete source (max furthest (place.offset + d.length)))
    else .ok (.ofDerivation lib source place d)

variable {lib g}

/-- A parse runs the root rule once and reads the result off the end of the run. -/
theorem parse_eq {text : String} {options : ParseOptions} {root : RuleRef} {cursor : Cursor}
    (hroot : lib.parseRoot g options.root = some root)
    (hcursor : Cursor.at? text.toList options.startOffset = some cursor) :
    lib.parse g text options =
      (lib.parseResult g options text.toList cursor.place
        (lib.run root (parseStart options cursor)).1
        (lib.run root (parseStart options cursor)).2.cursor).result := by
  simp only [parse, parseLogged, hroot, hcursor]
  rfl

section Result

variable {options : ParseOptions} {source : List Char} {place : Place}
  {outcome : Option Derivation} {cursor : Cursor}

theorem parseResult_of_calls (h : cursor.calls.exceeded = true) :
    (lib.parseResult g options source place outcome cursor).result =
      .error (.ofOffset .callLimit source cursor.furthest) := by
  simp [parseResult, h]

theorem parseResult_of_nesting (hcalls : cursor.calls.exceeded = false)
    (h : cursor.nesting.exceeded = true) :
    (lib.parseResult g options source place outcome cursor).result =
      .error (.ofOffset .depthLimit source cursor.furthest) := by
  simp [parseResult, hcalls, h]

theorem parseResult_of_unlimited (h : cursor.reachedLimit = false) :
    (lib.parseResult g options source place outcome cursor).result =
      lib.verdict options source place outcome cursor.furthest := by
  rw [Cursor.reachedLimit_eq_false_iff] at h
  simp only [parseResult, h.1, h.2, Bool.false_eq_true, if_false]
  cases outcome with
  | none => rfl
  | some d =>
      simp only [verdict]
      split <;> rfl

theorem not_limitError_verdict {furthest : Nat} :
    ¬ LimitError (lib.verdict options source place outcome furthest) := by
  unfold verdict
  cases outcome with
  | none =>
      rintro (h | h)
      · cases h.eq
      · cases h.eq
  | some d =>
      simp only
      split
      · rintro (h | h)
        · cases h.eq
        · cases h.eq
      · exact not_limitError_of_isSome rfl

/-- A parse reports a limit if and only if its run exceeded one. -/
theorem limitError_parseResult_iff :
    LimitError (lib.parseResult g options source place outcome cursor).result ↔
      cursor.reachedLimit = true := by
  constructor
  · intro h
    cases hreached : cursor.reachedLimit with
    | true => rfl
    | false =>
        rw [parseResult_of_unlimited hreached] at h
        exact absurd h not_limitError_verdict
  · intro h
    cases hcalls : cursor.calls.exceeded with
    | true =>
        rw [parseResult_of_calls hcalls]
        exact .inl (failsWith_ofOffset _ _ _)
    | false =>
        rw [Cursor.reachedLimit, hcalls, Bool.false_or] at h
        rw [parseResult_of_nesting hcalls h]
        exact .inr (failsWith_ofOffset _ _ _)

end Result

theorem Closed.knows_parseRoot (h : lib.Closed) {name : Option String} {root : RuleRef}
    (hroot : lib.parseRoot g name = some root) : lib.Knows root := by
  cases name with
  | some name => exact h.lookup hroot
  | none =>
      obtain ⟨grammar, hgrammar, rfl⟩ := Option.map_eq_some_iff.1 hroot
      exact h.root g grammar hgrammar

end Library

end Peg
