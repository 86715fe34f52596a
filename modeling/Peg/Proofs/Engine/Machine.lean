import Peg.Engine.Tape
import Peg.Proofs.Grammar.Target
import Peg.Proofs.Semantics.Matches
import Peg.Proofs.Text.Checked

/-!
# Runs with every check

`Library.execute` is `Library.write` with the checks of a machine: indices of rules and inclusions,
offsets, sums and depths are refused where they leave their range, and the text is cut off at the
cursor anew each time. What is refused makes the whole run fail. No number is passed on that limits
how long a run may take. The recursion is well-founded all the same: a rule that is performed leaves
less room for nesting, a repetition and the search for a stop go on only behind text that was unread
before, and otherwise there are fewer parts left to try.
-/

namespace Peg

namespace Cursor

/-- How much deeper executions may nest. -/
def room (c : Cursor) : Nat := c.nesting.room

def unread (c : Cursor) : Nat := byteLength c.source - c.offset

/-- The cursors are in the same text and at the same depth. -/
structure Level (c c' : Cursor) : Prop where
  source : c'.source = c.source
  limit : c'.nesting.limit = c.nesting.limit
  depth : c'.nesting.depth = c.nesting.depth

/-- An execution ends at the depth where it began. Behind a match, the cursor is as much further on. -/
structure Moves (c : Cursor) (result : Option Nat) (c' : Cursor) : Prop where
  level : c.Level c'
  forward : ∀ n ∈ result, c'.offset = c.offset + n ∧ c'.offset ≤ byteLength c.source

variable {c c' c'' : Cursor} {n : Nat} {p : Place}

namespace Level

theorem refl (c : Cursor) : c.Level c := ⟨rfl, rfl, rfl⟩

theorem trans (h : c.Level c') (h' : c'.Level c'') : c.Level c'' :=
  ⟨h'.source.trans h.source, h'.limit.trans h.limit, h'.depth.trans h.depth⟩

theorem room (h : c.Level c') : c'.room = c.room := by
  simp only [Cursor.room, Nesting.room, h.limit, h.depth]

theorem moveTo (h : c.Level c') (p : Place) : c.Level (c'.moveTo p) := ⟨h.source, h.limit, h.depth⟩

theorem leave (h : Level { c with nesting := c.nesting.enter } c') :
    c.Level { c' with nesting := c'.nesting.leave } := by
  refine ⟨h.source, h.limit, ?_⟩
  have hdepth : c'.nesting.depth = c.nesting.depth + 1 := h.depth
  simp only [Nesting.leave, hdepth]
  omega

theorem moves_none (h : c.Level c') : c.Moves none c' := ⟨h, fun n hn => by cases hn⟩

theorem moves_some (h : c.Level c') (hp : p.offset = c.offset + n)
    (hle : p.offset ≤ byteLength c.source) : c.Moves (some n) (c'.advanceTo p) := by
  refine ⟨⟨h.source, h.limit, h.depth⟩, fun m hm => ?_⟩
  cases hm
  exact ⟨hp, hle⟩

end Level

theorem unread_le (c : Cursor) : c.unread ≤ byteLength c.source := Nat.sub_le _ _

theorem Level.unread_lt (h : c.Level c') (hlt : c.offset < c'.offset)
    (hle : c'.offset ≤ byteLength c.source) : c'.unread < c.unread := by
  rw [unread, unread, h.source]
  omega

theorem Moves.unread_lt (h : c.Moves (some (n + 1)) c') : c'.unread < c.unread := by
  obtain ⟨hoffset, hle⟩ := h.forward (n + 1) rfl
  exact h.level.unread_lt (by omega) hle

end Cursor

/-! ## Checked steps -/

namespace Tape

def rest? (t : Tape) : Option (List Char) :=
  (Place.at? t.cursor.source t.cursor.offset).map Place.rest

def placeAt? (t : Tape) (offset : Nat) :
    Option { p : Place // p.offset = offset ∧ p.offset ≤ byteLength t.cursor.source } :=
  match h : Place.at? t.cursor.source offset with
  | none => none
  | some p =>
    have hp := Place.at?_eq_some_iff.1 h
    some ⟨p, hp.2, hp.1.offset_le⟩

def spendCall? (t : Tape) : Option { spent : Tape // spent = t.spendCall } :=
  if t.cursor.calls.limit.all (t.cursor.calls.made + 1 ≤ ·) then some ⟨t.spendCall, rfl⟩ else none

def enter? (t : Tape) :
    Option { inner : Tape // inner = t.enter ∧ inner.cursor.room < t.cursor.room } :=
  if h : t.cursor.nesting.depth + 1 ≤ t.cursor.nesting.limit then
    some ⟨t.enter, rfl, by simp only [Cursor.room, Nesting.room, enter, Nesting.enter]; omega⟩
  else none

def leave? (t : Tape) : Option { outer : Tape // outer = t.leave } :=
  if 1 ≤ t.cursor.nesting.depth then some ⟨t.leave, rfl⟩ else none

/-- Closes the rule that is open with the length of its match, or cuts it off. -/
def finish (t : Tape) (size : Nat) : Option Nat → Option Nat × Tape
  | some length => t.close length
  | none => (none, t.cutTo size)

theorem finish_cursor (t : Tape) (size : Nat) (result : Option Nat) :
    (t.finish size result).2.cursor = t.cursor := by
  cases result <;> rfl

end Tape

/-! ## Executions -/

namespace Library

open Cursor

mutual

def execute (lib : Library) (r : RuleRef) (t : Tape) :
    Option { result : Option Nat × Tape // t.cursor.Moves result.1 result.2.cursor } := do
  let rule ← lib.rule? r
  match t.recording with
  | none => lib.executeRule r rule t
  | some recording =>
    let start := t.place.offset
    match recording.outcome? r start with
    | some (some events) =>
      let copied := (t.noteReplay r start).append events
      let n ← copied.events.back?.bind Event.bytes?
      let ⟨p, hp⟩ ← t.placeAt? (start + n)
      some ⟨(some n, copied.advanceTo p), (Level.refl t.cursor).moves_some hp.1 hp.2⟩
    | some none => some ⟨(none, t.countFailureHit), (Level.refl t.cursor).moves_none⟩
    | none =>
      let size := t.events.size
      let ⟨(result, t'), h⟩ ← lib.executeRule r rule t.countMiss
      if t'.cursor.reachedLimit then some ⟨(result, t'), h⟩
      else
        let written ← slice? t'.events size t'.events.size
        some ⟨(result, t'.remember r start (result.map fun _ => written)), h⟩
termination_by (t.cursor.room, 0, 1)
decreasing_by all_goals exact .right _ (.right _ Nat.zero_lt_one)

/-- Runs a rule within the limits, asking the call limit first. -/
def executeRule (lib : Library) (r : RuleRef) (rule : Rule RuleRef) (t : Tape) :
    Option { result : Option Nat × Tape // t.cursor.Moves result.1 result.2.cursor } := do
  if t.cursor.calls.isSpent then some ⟨(none, t.refuseCall), Level.moves_none ⟨rfl, rfl, rfl⟩⟩
  else
    let ⟨spent, hspent⟩ ← t.spendCall?
    have hlevel : t.cursor.Level spent.cursor := hspent ▸ ⟨rfl, rfl, rfl⟩
    let nesting := spent.cursor.nesting
    if nesting.exceeded ∨ nesting.limit ≤ nesting.depth then
      some ⟨(none, spent.refuseNesting), Level.moves_none ⟨hlevel.source, hlevel.limit, hlevel.depth⟩⟩
    else
      let start := t.place.offset
      let size := t.events.size
      let ⟨inner, hinner⟩ ← spent.enter?
      let ⟨(result, t'), h⟩ ← lib.performRule r inner rule.kind
      let ⟨outer, houter⟩ ← t'.leave?
      have hinside : spent.enter.cursor.Level t'.cursor := hinner.1 ▸ h
      have hlevel' : t.cursor.Level outer.cursor := hlevel.trans (houter ▸ hinside.leave)
      match result with
      | some n =>
        let ⟨p, hp⟩ ← t.placeAt? (start + n)
        some ⟨(some n, outer.advanceTo p), hlevel'.moves_some hp.1 hp.2⟩
      | none =>
        let ⟨p, _⟩ ← t.placeAt? start
        some ⟨(none, (outer.cutTo size).moveTo p), (hlevel'.moveTo p).moves_none⟩
termination_by (t.cursor.room, 0, 0)
decreasing_by exact .left _ _ (hlevel.room ▸ hinner.2)

/-- Performs a kind of rule. The cursor is not moved behind the match. -/
def performRule (lib : Library) (r : RuleRef) (t : Tape) (kind : Kind RuleRef) :
    Option { result : Option Nat × Tape // t.cursor.Level result.2.cursor } := do
  match kind with
  | .terminal matcher =>
    let rest ← t.rest?
    match matcher.matchAt rest with
    | some n => some ⟨t.leaf r n, .refl t.cursor⟩
    | none => some ⟨(none, t), .refl t.cursor⟩
  | .text literal ignoreCase =>
    let rest ← t.rest?
    match literalAt (if ignoreCase then sameLower else (· == ·)) literal rest with
    | some n => some ⟨t.leaf r n, .refl t.cursor⟩
    | none => some ⟨(none, t), .refl t.cursor⟩
  | .sequence parts =>
    let ⟨(result, t'), h⟩ ← lib.executeAll (parts.map r.sibling) 0 (t.push (.opened r))
    some ⟨t'.finish t.events.size result, t'.finish_cursor _ result ▸ h⟩
  | .choice options =>
    let ⟨(result, t'), h⟩ ← lib.executeFirst (options.map r.sibling) (t.push (.opened r))
    some ⟨t'.finish t.events.size result, t'.finish_cursor _ result ▸ h⟩
  | .rep body least most =>
    let ⟨(result, t'), h⟩ ←
      lib.executeRounds (r.sibling body) least most 0 0 (t.push (.opened r))
    some ⟨t'.finish t.events.size result, t'.finish_cursor _ result ▸ h⟩
  | .ahead body =>
    let ⟨(result, t'), h⟩ ← lib.executeTest (r.sibling body) t
    match result with
    | some _ => some ⟨t'.leaf r 0, h.1⟩
    | none => some ⟨(none, t'), h.1⟩
  | .notAhead body =>
    let ⟨(result, t'), h⟩ ← lib.executeTest (r.sibling body) t
    match result with
    | some _ => some ⟨(none, t'), h.1⟩
    | none => some ⟨t'.leaf r 0, h.1⟩
  | .upTo stop =>
    let start := t.place.offset
    let ⟨(passed, t'), h⟩ ← lib.executeUpTo (r.sibling stop) start 0 t rfl
    let ⟨p, _⟩ ← t.placeAt? start
    if 0 < passed then some ⟨(t'.moveTo p).leaf r passed, h.moveTo p⟩
    else some ⟨(none, t'.moveTo p), h.moveTo p⟩
  | .ref name target =>
    let found ← (lib.bound? r.grammar (.ref name target)).bind (lib.resolve? r.grammar)
    let ⟨(result, t'), h⟩ ← lib.execute found (t.push (.opened r))
    some ⟨t'.finish t.events.size result, t'.finish_cursor _ result ▸ h.level⟩
  | .inherited name target =>
    let found ← (lib.bound? r.grammar (.inherited name target)).bind (lib.resolve? r.grammar)
    let ⟨(result, t'), h⟩ ← lib.execute found (t.push (.opened r))
    some ⟨t'.finish t.events.size result, t'.finish_cursor _ result ▸ h.level⟩
  | .label body =>
    let ⟨(result, t'), h⟩ ← lib.execute (r.sibling body) (t.push (.opened r))
    some ⟨t'.finish t.events.size result, t'.finish_cursor _ result ▸ h.level⟩
termination_by (t.cursor.room, byteLength t.cursor.source + 2, 0)
decreasing_by
  all_goals first
    | exact .right _ (.left _ _ (Nat.succ_pos _))
    | exact .right _ (.left _ _ (Nat.succ_lt_succ (Nat.lt_succ_of_le t.cursor.unread_le)))

/-- Runs a rule with a buffer of its own, which is dropped, and moves the cursor back. -/
def executeTest (lib : Library) (r : RuleRef) (t : Tape) :
    Option { result : Option Nat × Tape //
      t.cursor.Level result.2.cursor ∧ result.2.cursor.offset = t.cursor.offset } := do
  let ⟨(result, t'), h⟩ ← lib.execute r (t.withEvents #[])
  let ⟨p, hp⟩ ← t.placeAt? t.place.offset
  some ⟨(result, (t'.moveTo p).withEvents t.events), h.level.moveTo p, hp.1⟩
termination_by (t.cursor.room, 0, 2)
decreasing_by exact .right _ (.right _ (Nat.lt_succ_self 1))

def executeAll (lib : Library) (rs : List RuleRef) (length : Nat) (t : Tape) :
    Option { result : Option Nat × Tape // t.cursor.Level result.2.cursor } := do
  match rs with
  | [] => some ⟨(some length, t), .refl t.cursor⟩
  | r :: rs =>
    let ⟨(result, t'), h⟩ ← lib.execute r t
    match result with
    | none => some ⟨(none, t'), h.level⟩
    | some n =>
      let length ← sumWithin? (byteLength t.cursor.source) length n
      let ⟨result, h'⟩ ← lib.executeAll rs length t'
      some ⟨result, h.level.trans h'⟩
termination_by (t.cursor.room, 0, rs.length + 2)
decreasing_by
  · exact .right _ (.right _ (Nat.succ_lt_succ (Nat.succ_pos _)))
  · rw [h.level.room]
    exact .right _ (.right _ (Nat.lt_succ_self _))

def executeFirst (lib : Library) (rs : List RuleRef) (t : Tape) :
    Option { result : Option Nat × Tape // t.cursor.Level result.2.cursor } := do
  match rs with
  | [] => some ⟨(none, t), .refl t.cursor⟩
  | r :: rs =>
    let ⟨(result, t'), h⟩ ← lib.execute r t
    match result with
    | none =>
      let ⟨result, h'⟩ ← lib.executeFirst rs t'
      some ⟨result, h.level.trans h'⟩
    | some n => some ⟨(some n, t'), h.level⟩
termination_by (t.cursor.room, 0, rs.length + 2)
decreasing_by
  · exact .right _ (.right _ (Nat.succ_lt_succ (Nat.succ_pos _)))
  · rw [h.level.room]
    exact .right _ (.right _ (Nat.lt_succ_self _))

/-- Repeats a rule as long as it matches, but less than `most` times. A match of nothing ends the
repetition and stands for as many rounds as are needed. -/
def executeRounds (lib : Library) (r : RuleRef) (least : Nat) (most : Option Nat)
    (count length : Nat) (t : Tape) :
    Option { result : Option Nat × Tape // t.cursor.Level result.2.cursor } := do
  if most.any (· ≤ count) then some ⟨(Writer.ifEnough least count length, t), .refl t.cursor⟩
  else
    let ⟨(result, t'), h⟩ ← lib.execute r t
    match result, h with
    | none, h => some ⟨(Writer.ifEnough least count length, t'), h.level⟩
    | some 0, h =>
      some ⟨(Writer.ifEnough least (max (max count least) 1) length, t'), h.level⟩
    | some (n + 1), h =>
      let length ← sumWithin? (byteLength t.cursor.source) length (n + 1)
      let count ← sumWithin? (byteLength t.cursor.source) count 1
      let ⟨result, h'⟩ ← lib.executeRounds r least most count length t'
      some ⟨result, h.level.trans h'⟩
termination_by (t.cursor.room, t.cursor.unread + 1, 0)
decreasing_by
  · exact .right _ (.left _ _ (Nat.succ_pos _))
  · rw [h.level.room]
    exact .right _ (.left _ _ (Nat.succ_lt_succ h.unread_lt))

/-- Passes over characters until a rule matches or the text ends, and tells how many bytes. The cursor
began at `start` and has passed over `passed` bytes. -/
def executeUpTo (lib : Library) (stop : RuleRef) (start passed : Nat) (t : Tape)
    (_hstart : t.cursor.offset = start + passed) :
    Option { result : Nat × Tape // t.cursor.Level result.2.cursor } := do
  let ⟨(result, t'), h'⟩ ← lib.executeTest stop t
  match result with
  | some _ => some ⟨(passed, t'), h'.1⟩
  | none =>
    match ← t'.rest? with
    | [] => some ⟨(passed, t'), h'.1⟩
    | c :: _ =>
      let ⟨p, hp⟩ ← t.placeAt? (start + (passed + c.utf8Size))
      let ⟨result, h''⟩ ← lib.executeUpTo stop start (passed + c.utf8Size) (t'.moveTo p) hp.1
      some ⟨result, (h'.1.moveTo p).trans h''⟩
termination_by (t.cursor.room, t.cursor.unread + 1, 0)
decreasing_by
  · exact .right _ (.left _ _ (Nat.succ_pos _))
  · have hmoved : t.cursor.Level (t'.moveTo p).cursor := h'.1.moveTo p
    have hpos := c.utf8Size_pos
    have hlt : t.cursor.offset < p.offset := by omega
    rw [hmoved.room]
    exact .right _ (.left _ _ (Nat.succ_lt_succ (hmoved.unread_lt hlt hp.2)))

end

end Library

end Peg
