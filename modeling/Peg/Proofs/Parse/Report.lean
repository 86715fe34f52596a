import Peg.Parse.Error
import Peg.Proofs.Text.Checked
import Peg.Proofs.Text.Position

/-!
# Errors with every check

Lines, columns and errors computed from offsets alone, as a program does it that cuts pieces out of
the text and adds and subtracts numbers of a fixed width. Offsets have to be places of the text, and
lines and columns may not exceed its length by more than one. Main statements:
`ParseError.ofOffset?_eq_some` and `ParseError.report?_ofOffset`, no check is ever missed.
-/

namespace Peg

/-! ## Lines and columns -/

/-- `lineColumnFrom` with sums that stay within a bound. -/
def lineColumnWithin? (bound : Nat) : Nat → Nat → List Char → Option (Nat × Nat)
  | line, col, [] => some (line, col)
  | line, _, '\r' :: '\n' :: cs => do lineColumnWithin? bound (← sumWithin? bound line 1) 1 cs
  | line, col, c :: cs =>
    if c = '\n' then do lineColumnWithin? bound (← sumWithin? bound line 1) 1 cs
    else do lineColumnWithin? bound line (← sumWithin? bound col 1) cs

theorem lineColumnWithin?_eq_some {bound line col : Nat} {text : List Char}
    (hline : line + text.length ≤ bound) (hcol : col + text.length ≤ bound) :
    lineColumnWithin? bound line col text = some (lineColumnFrom line col text) := by
  fun_induction lineColumnFrom line col text with
  | case1 line col => rfl
  | case2 line col cs ih =>
      simp only [List.length_cons] at hline hcol
      have hnext := ih (by omega) (by omega)
      rw [lineColumnWithin?, sumWithin?_eq_some (by omega)]
      exact hnext
  | case3 line col cs hcs ih =>
      simp only [List.length_cons] at hline hcol
      have hnext := ih (by omega) (by omega)
      rw [lineColumnWithin?, if_pos rfl, sumWithin?_eq_some (by omega)]
      · exact hnext
      · exact hcs
  | case4 line col c cs hcs hc ih =>
      simp only [List.length_cons] at hline hcol
      have hnext := ih (by omega) (by omega)
      rw [lineColumnWithin?, if_neg hc, sumWithin?_eq_some (by omega)]
      · exact hnext
      · exact hcs

theorem one_le_lineColumnFrom {line col : Nat} {text : List Char} (hcol : 1 ≤ col) :
    1 ≤ (lineColumnFrom line col text).2 := by
  fun_induction lineColumnFrom line col text with
  | case1 line col => exact hcol
  | case2 line col cs ih | case3 line col cs _ ih => exact ih (Nat.le_refl 1)
  | case4 line col c cs _ _ ih => exact ih (by omega)

theorem lineColumnFrom_le (line col : Nat) (text : List Char) :
    (lineColumnFrom line col text).2 ≤ max 1 col + text.length := by
  fun_induction lineColumnFrom line col text with
  | case1 line col => exact Nat.le_trans (Nat.le_max_right 1 col) (Nat.le_add_right _ _)
  | case2 line col cs ih | case3 line col cs _ ih | case4 line col c cs _ _ ih =>
      simp only [List.length_cons]
      omega

theorem byteLength_reverse (text : List Char) : byteLength text.reverse = byteLength text := by
  induction text with
  | nil => rfl
  | cons c cs ih => simp [ih, Nat.add_comm]

theorem length_le_byteLength (text : List Char) : text.length ≤ byteLength text := by
  induction text with
  | nil => exact Nat.le_refl 0
  | cons c cs ih =>
      have hpos := c.utf8Size_pos
      simp only [List.length_cons, byteLength_cons]
      omega

namespace Position

def lineColumn? (source : List Char) (offset : Nat) : Option (Nat × Nat) := do
  let before ← textBetween? source 0 offset
  lineColumnWithin? (byteLength source + 1) 1 1 before

def lastBreak? (text : List Char) : Option Nat :=
  match text.reverse.dropWhile (· ≠ '\n') with
  | [] => none
  | _ :: front => some (byteLength front)

def firstBreak? (text : List Char) : Option Nat :=
  match text.dropWhile (· ≠ '\n') with
  | [] => none
  | _ :: _ => some (byteLength (text.takeWhile (· ≠ '\n')))

/-- The line of an offset, cut out between the line feeds around it. -/
def line? (source : List Char) (offset : Nat) : Option (List Char) := do
  let size := byteLength source
  let before ← textBetween? source 0 offset
  let after ← textBetween? source offset size
  let start ← (lastBreak? before).elim (some 0) (sumWithin? size · 1)
  let stop ← (firstBreak? after).elim (some size) (sumWithin? size offset ·)
  let whole ← textBetween? source (min start stop) stop
  some (if whole.getLast? = some '\r' then whole.dropLast else whole)

theorem exists_lastBreak? (text : List Char) :
    ∃ front, text = front ++ (text.reverse.takeWhile (· ≠ '\n')).reverse ∧
      (lastBreak? text).elim 0 (· + 1) = byteLength front := by
  refine ⟨(text.reverse.dropWhile (· ≠ '\n')).reverse, ?_, ?_⟩
  · rw [← List.reverse_append, List.takeWhile_append_dropWhile, List.reverse_reverse]
  · unfold lastBreak?
    split
    · next hnil =>
        rw [hnil]
        rfl
    · next c front hfront =>
        have hc : c = '\n' := by
          have hhead := List.head?_dropWhile_not (· ≠ '\n') text.reverse
          rw [hfront] at hhead
          simpa using hhead
        rw [hfront, byteLength_reverse, hc, byteLength_cons, Nat.add_comm]
        rfl

theorem firstBreak?_eq (text : List Char) :
    (firstBreak? text).getD (byteLength text) = byteLength (text.takeWhile (· ≠ '\n')) := by
  unfold firstBreak?
  split
  · next hnil =>
      have happend := List.takeWhile_append_dropWhile (p := (· ≠ '\n')) (l := text)
      rw [hnil, List.append_nil] at happend
      rw [happend]
      rfl
  · rfl

variable {source : List Char} {offset : Nat} {position : Position}

theorem byteLength_of_at? (h : Position.at? source offset = some position) :
    byteLength source = byteLength position.before + byteLength position.after := by
  rw [(at?_eq_some h).1, byteLength_append]

theorem textBetween?_before (h : Position.at? source offset = some position) :
    textBetween? source 0 offset = some position.before := by
  obtain ⟨rfl, rfl⟩ := at?_eq_some h
  have hbetween := textBetween?_append [] position.before position.after
  rw [byteLength_nil, Nat.zero_add] at hbetween
  exact hbetween

theorem textBetween?_after (h : Position.at? source offset = some position) :
    textBetween? source offset (byteLength source) = some position.after := by
  obtain ⟨rfl, rfl⟩ := at?_eq_some h
  have hbetween := textBetween?_append position.before position.after []
  rw [List.append_nil] at hbetween
  rw [byteLength_append]
  exact hbetween

theorem lineColumn?_eq_some (h : Position.at? source offset = some position) :
    lineColumn? source offset = some position.lineColumn := by
  have hlength := length_le_byteLength position.before
  have hsize := byteLength_of_at? h
  simp only [lineColumn?, textBetween?_before h, Option.bind_eq_bind, Option.bind_some]
  exact lineColumnWithin?_eq_some (by omega) (by omega)

theorem line?_eq_some (h : Position.at? source offset = some position) :
    line? source offset = some position.line := by
  obtain ⟨front, hfront, hstart⟩ := exists_lastBreak? position.before
  have hstop := firstBreak?_eq position.after
  have hafter := List.takeWhile_append_dropWhile (p := (· ≠ '\n')) (l := position.after)
  have hbefore? := textBetween?_before h
  have hafter? := textBetween?_after h
  obtain ⟨hsource, hoffset⟩ := at?_eq_some h
  obtain ⟨before, after⟩ := position
  simp only at hfront hstart hstop hafter hsource hoffset hbefore? hafter?
  generalize hkept : (before.reverse.takeWhile (· ≠ '\n')).reverse = kept at hfront
  generalize hfirst : after.takeWhile (· ≠ '\n') = first at hstop hafter
  generalize after.dropWhile (· ≠ '\n') = back at hafter
  -- the text in four pieces: before the line, the line on both sides of the position, behind the line
  have htext : source = front ++ ((kept ++ first) ++ back) := by
    rw [hsource, hfront, ← hafter]
    simp
  have hsize : byteLength source =
      byteLength front + byteLength kept + byteLength first + byteLength back := by
    rw [htext]
    simp [Nat.add_assoc]
  have hoffset' : offset = byteLength front + byteLength kept := by
    rw [hoffset, hfront, byteLength_append]
  have hstart? : (lastBreak? before).elim (some 0) (sumWithin? (byteLength source) · 1) =
      some (byteLength front) := by
    rw [← hstart]
    cases hbreak : lastBreak? before with
    | none => rfl
    | some i =>
        rw [hbreak, Option.elim_some] at hstart
        exact sumWithin?_eq_some (by omega)
  have hstop? : (firstBreak? after).elim (some (byteLength source))
      (sumWithin? (byteLength source) offset ·) =
        some (byteLength front + byteLength (kept ++ first)) := by
    rw [byteLength_append, ← Nat.add_assoc, ← hoffset']
    cases hbreak : firstBreak? after with
    | none =>
        rw [hbreak, Option.getD_none, ← hafter, byteLength_append] at hstop
        exact congrArg some (by omega)
    | some i =>
        rw [hbreak, Option.getD_some] at hstop
        rw [Option.elim_some, hstop]
        exact sumWithin?_eq_some (by omega)
  have hwhole : textBetween? source (byteLength front)
      (byteLength front + byteLength (kept ++ first)) = some (kept ++ first) := by
    rw [htext]
    exact textBetween?_append front (kept ++ first) back
  simp only [line?, hbefore?, hafter?, hstart?, hstop?, hwhole, Option.bind_eq_bind,
    Option.bind_some, Nat.min_eq_left (Nat.le_add_right _ _), Position.line, hkept, hfirst]

end Position

/-! ## Errors -/

namespace ParseError

/-- The error at an offset. Columns are counted from zero here. -/
def ofOffset? (kind : ParseErrorKind) (source : List Char) (offset : Nat) : Option ParseError := do
  match Position.at? source offset with
  | some _ =>
    let (lineNumber, col) ← Position.lineColumn? source offset
    let columnOffset ← difference? col 1
    let line ← Position.line? source offset
    some { kind, failureOffset := offset, lineNumber, columnOffset, lineText := String.ofList line }
  | none =>
    some { kind, failureOffset := offset, lineNumber := 1, columnOffset := 0, lineText := "" }

/-- Every error can be placed, also at an offset that is no place of the text. -/
theorem ofOffset?_eq_some (kind : ParseErrorKind) (source : List Char) (offset : Nat) :
    ofOffset? kind source offset = some (.ofOffset kind source offset) := by
  unfold ofOffset? ofOffset
  cases hposition : Position.at? source offset with
  | none => rfl
  | some position =>
      have hcol : 1 ≤ position.lineColumn.2 := one_le_lineColumnFrom (Nat.le_refl 1)
      simp only [Position.lineColumn?_eq_some hposition, Position.line?_eq_some hposition,
        difference?_eq_some hcol, Option.bind_eq_bind, Option.bind_some]

/-- The report with the column to show, counted from one. -/
def reportAt (e : ParseError) (col : Nat) : String :=
  let number := toString e.lineNumber
  let margin := String.ofList (List.replicate number.length ' ')
  margin ++ "--> " ++ number ++ ":" ++ toString col ++ "\n"
    ++ margin ++ " |\n"
    ++ number ++ " | " ++ e.lineText ++ "\n"
    ++ margin ++ " | " ++ e.pointer ++ "\n"
    ++ margin ++ " |\n"
    ++ margin ++ " = " ++ e.kind.message

/-- The report on an error in a text of so many bytes. -/
def report? (size : Nat) (e : ParseError) : Option String :=
  (sumWithin? (size + 1) e.columnOffset 1).map e.reportAt

theorem columnOffset_ofOffset_le (kind : ParseErrorKind) (source : List Char) (offset : Nat) :
    (ofOffset kind source offset).columnOffset ≤ byteLength source := by
  unfold ofOffset
  cases hposition : Position.at? source offset with
  | none => exact Nat.zero_le _
  | some position =>
      have hlength := length_le_byteLength position.before
      have hsize := Position.byteLength_of_at? hposition
      have hle := lineColumnFrom_le 1 1 position.before
      change position.lineColumn.2 - 1 ≤ byteLength source
      unfold Position.lineColumn
      omega

theorem report?_ofOffset (kind : ParseErrorKind) (source : List Char) (offset : Nat) :
    (ofOffset kind source offset).report? (byteLength source) =
      some (ofOffset kind source offset).report := by
  have hle := columnOffset_ofOffset_le kind source offset
  unfold report?
  rw [sumWithin?_eq_some (by omega)]
  rfl

end ParseError

end Peg
