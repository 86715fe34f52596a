import Peg.Derivation

/-!
# Reading events back

Once it is known which rules are wrappers, the events of a derivation determine it. They are read
from front to back with a stack of the rules that are open. Main statement: `ofEvents?_events`.
-/

namespace Peg.Derivation

mutual

/-- The events of a derivation in a list. -/
def flat : Derivation → List Event
  | branch r n parts => .opened r :: (flatAll parts ++ [.closed, .length n])
  | wrapped r inner => .opened r :: (inner.flat ++ [.closed, .length inner.length])

def flatAll : List Derivation → List Event
  | [] => []
  | d :: ds => d.flat ++ flatAll ds

end

mutual

theorem emit_toList (events : Array Event) (d : Derivation) :
    (emit events d).toList = events.toList ++ d.flat := by
  cases d with
  | branch r n parts => simp [emit, flat, emitAll_toList]
  | wrapped r inner => simp [emit, flat, emit_toList]

theorem emitAll_toList (events : Array Event) (ds : List Derivation) :
    (emitAll events ds).toList = events.toList ++ flatAll ds := by
  cases ds with
  | nil => simp [emitAll, flatAll]
  | cons d ds => simp [emitAll, flatAll, emitAll_toList, emit_toList]

end

theorem events_toList (d : Derivation) : d.events.toList = d.flat := by
  simp [events, emit_toList]

/-- A rule that has opened and not closed yet, with the parts before it at its level, latest first. -/
structure Pending where
  rule : RuleRef
  before : List Derivation

/-- The derivation of a rule that closes with a length over the parts read since it opened. -/
def close (isWrapper : RuleRef → Bool) (r : RuleRef) (parts : List Derivation) (n : Nat) :
    Option Derivation :=
  if isWrapper r then
    match parts with
    | [inner] => if inner.length = n then some (wrapped r inner) else none
    | _ => none
  else some (branch r n parts)

/-- Reads events behind the parts `done` of the innermost open rule, latest first. All rules have to
be closed at the end. -/
def readEvents (isWrapper : RuleRef → Bool) (done : List Derivation) (outer : List Pending) :
    List Event → Option (List Derivation)
  | [] => if outer.isEmpty then some done.reverse else none
  | .opened r :: es => readEvents isWrapper [] (⟨r, done⟩ :: outer) es
  | .closed :: .length n :: es =>
    match outer with
    | [] => none
    | ⟨r, before⟩ :: outer =>
      match close isWrapper r done.reverse n with
      | none => none
      | some d => readEvents isWrapper (d :: before) outer es
  | .closed :: _ => none
  | .length _ :: _ => none

/-- The derivation with the given events, none if they are not those of a single derivation. -/
def ofEvents? (isWrapper : RuleRef → Bool) (events : List Event) : Option Derivation :=
  match readEvents isWrapper [] [] events with
  | some [d] => some d
  | _ => none

mutual

/-- Whether exactly the wrappers among the rules of a derivation wrap. -/
def Wraps (isWrapper : RuleRef → Bool) : Derivation → Prop
  | branch r _ parts => isWrapper r = false ∧ WrapsAll isWrapper parts
  | wrapped r inner => isWrapper r = true ∧ inner.Wraps isWrapper

def WrapsAll (isWrapper : RuleRef → Bool) : List Derivation → Prop
  | [] => True
  | d :: ds => d.Wraps isWrapper ∧ WrapsAll isWrapper ds

end

mutual

theorem readEvents_flat_append {isWrapper : RuleRef → Bool} {d : Derivation}
    (h : d.Wraps isWrapper) (done : List Derivation) (outer : List Pending) (es : List Event) :
    readEvents isWrapper done outer (d.flat ++ es) = readEvents isWrapper (d :: done) outer es := by
  cases d with
  | branch r n parts =>
    obtain ⟨hr, hparts⟩ := h
    simp [flat, readEvents, readEvents_flatAll_append hparts, close, hr]
  | wrapped r inner =>
    obtain ⟨hr, hinner⟩ := h
    simp [flat, readEvents, readEvents_flat_append hinner, close, hr]

theorem readEvents_flatAll_append {isWrapper : RuleRef → Bool} {ds : List Derivation}
    (h : WrapsAll isWrapper ds) (done : List Derivation) (outer : List Pending) (es : List Event) :
    readEvents isWrapper done outer (flatAll ds ++ es) =
      readEvents isWrapper (ds.reverse ++ done) outer es := by
  cases ds with
  | nil => simp [flatAll]
  | cons d ds =>
    obtain ⟨hd, hds⟩ := h
    simp [flatAll, readEvents_flat_append hd, readEvents_flatAll_append hds]

end

theorem ofEvents?_events {isWrapper : RuleRef → Bool} {d : Derivation} (h : d.Wraps isWrapper) :
    ofEvents? isWrapper d.events.toList = some d := by
  have hread := readEvents_flat_append h [] [] []
  rw [List.append_nil] at hread
  simp [ofEvents?, events_toList, hread, readEvents]

end Peg.Derivation
