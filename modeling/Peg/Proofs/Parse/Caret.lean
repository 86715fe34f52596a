import Peg.Parse.Basic
import Peg.Proofs.Grammar.Built
import Peg.Proofs.Text.Position

/-!
# The caret of an error

An error shows the line of its failure and below it a caret, with as many characters before it as the
line has before the failure. The report puts both behind columns of the same width. The one exception
is a failure right behind a carriage return with which its line ends: the column counts the carriage
return and the line that is shown is without it. Main statement: `ParseError.caretAt_ofOffset`.
-/

namespace Peg

/-- The line in the middle of a text. It begins with the text or behind a line feed, and it ends with
the text, before a line feed or before a carriage return and a line feed. -/
structure IsLine (source front line back : List Char) : Prop where
  text : source = front ++ (line ++ back)
  unbroken : '\n' ∉ line
  starts : front = [] ∨ ∃ u, front = u ++ ['\n']
  ends : back = [] ∨ (line.getLast? ≠ some '\r' ∧ ∃ u, back = '\n' :: u) ∨ ∃ u, back = '\r' :: '\n' :: u

namespace Position

variable {p : Position}

/-- The position stands behind a carriage return that a line feed follows, or nothing. -/
def BehindReturn (p : Position) : Prop := p.leading.getLast? = some '\r' ∧ p.trailing = []

instance (p : Position) : Decidable p.BehindReturn := inferInstanceAs (Decidable (_ ∧ _))

theorem line_of_behindReturn (h : p.BehindReturn) : p.leading = p.line ++ ['\r'] := by
  obtain ⟨u, hleading⟩ := List.getLast?_eq_some_iff.1 h.1
  rw [line_eq, piece, h.2, List.append_nil, if_pos h.1, hleading, List.dropLast_concat]

theorem break_notMem_line (p : Position) : '\n' ∉ p.line := by
  rw [line_eq]
  split
  · exact fun h => p.break_notMem_piece (List.dropLast_subset _ h)
  · exact p.break_notMem_piece

theorem leading_prefix_line (h : ¬ p.BehindReturn) : p.leading <+: p.line := by
  rw [line_eq]
  split
  · next hlast =>
      rcases List.eq_nil_or_concat' p.trailing with htrailing | ⟨u, c, htrailing⟩
      · rw [piece, htrailing, List.append_nil] at hlast
        exact absurd ⟨hlast, htrailing⟩ h
      · rw [piece, htrailing, ← List.append_assoc, List.dropLast_concat]
        exact List.prefix_append _ _
  · exact List.prefix_append _ _

theorem exists_isLine (p : Position) :
    ∃ front line back, IsLine (p.before ++ p.after) front line back ∧ p.before = front ++ p.leading ∧
      (p.leading <+: line ∨ p.leading = line ++ ['\r'] ∧ p.after.head? = some '\n') ∧
      p.line = if back = [] ∧ line.getLast? = some '\r' then line.dropLast else line := by
  obtain ⟨front, hbefore, hfront⟩ := p.exists_before_eq
  obtain ⟨back, hafter, hback⟩ := p.exists_after_eq
  have htext := text_eq hbefore hafter
  by_cases hlast : p.piece.getLast? = some '\r'
  · rcases hback with rfl | ⟨u, rfl⟩
    · refine ⟨front, p.piece, [], ⟨htext, p.break_notMem_piece, hfront, .inl rfl⟩, hbefore,
        .inl (List.prefix_append _ _), ?_⟩
      rw [line_eq, if_pos hlast, if_pos ⟨rfl, hlast⟩]
    -- the carriage return belongs to the line feed, and the position may stand between the two
    · obtain ⟨line, hpiece⟩ := List.getLast?_eq_some_iff.1 hlast
      have hline : p.line = line := by rw [line_eq, if_pos hlast, hpiece, List.dropLast_concat]
      have hunbroken : '\n' ∉ line := fun h =>
        p.break_notMem_piece (hpiece ▸ List.mem_append_left _ h)
      refine ⟨front, line, '\r' :: '\n' :: u, ⟨?_, hunbroken, hfront, .inr (.inr ⟨u, rfl⟩)⟩, hbefore,
        ?_, by simp [hline]⟩
      · rw [htext, hpiece, List.append_assoc, List.singleton_append]
      · by_cases hreturn : p.BehindReturn
        · refine .inr ⟨hline ▸ line_of_behindReturn hreturn, ?_⟩
          rw [hafter, hreturn.2, List.nil_append, List.head?_cons]
        · exact .inl (hline ▸ leading_prefix_line hreturn)
  · refine ⟨front, p.piece, back, ⟨htext, p.break_notMem_piece, hfront, ?_⟩, hbefore,
      .inl (List.prefix_append _ _), ?_⟩
    · exact hback.imp_right fun hbreak => .inl ⟨hlast, hbreak⟩
    · rw [line_eq, if_neg hlast, if_neg fun h => hlast h.2]

end Position

namespace ParseError

def reportLines (e : ParseError) : List (List Char) := e.report.toList.splitOn '\n'

/-- The caret stands under a column of the line: as many characters come before it, each the tab that
the line has there or else a blank, and in the report the line and the caret have the same width
before them. -/
structure CaretAt (e : ParseError) (col : Nat) : Prop where
  inside : col ≤ e.lineText.toList.length
  width : e.pointer.toList.length = col + 1
  before : ∀ i < col, e.pointer.toList[i]? =
    some (if e.lineText.toList[i]? = some '\t' then '\t' else ' ')
  caret : e.pointer.toList[col]? = some '^'
  printed : ∃ left right, left.length = right.length ∧
    e.reportLines[2]? = some (left ++ e.lineText.toList) ∧
    e.reportLines[3]? = some (right ++ e.pointer.toList)

/-- What stands before the caret where the line has a character. -/
def shade (c : Char) : Char := if c = '\t' then '\t' else ' '

theorem toList_pointer (e : ParseError) :
    e.pointer.toList = (e.lineText.toList.take e.columnOffset).map shade ++ ['^'] := by
  rw [pointer, String.toList_ofList]
  rfl

theorem shade_ne_break (c : Char) : shade c ≠ '\n' := by
  unfold shade
  split <;> decide

theorem break_notMem_pointer (e : ParseError) : '\n' ∉ e.pointer.toList := by
  rw [toList_pointer, List.mem_append, List.mem_map]
  rintro (⟨c, -, hc⟩ | hcaret)
  · exact shade_ne_break c hc
  · exact absurd hcaret (by decide)

theorem break_notMem_toString (n : Nat) : '\n' ∉ (toString n).toList := by
  intro h
  rw [Nat.toString_eq_repr, Nat.toList_repr] at h
  exact absurd (Nat.isDigit_of_mem_toDigits (by decide) (by decide) h) (by decide)

def number (e : ParseError) : List Char := (toString e.lineNumber).toList

def margin (e : ParseError) : List Char := List.replicate e.number.length ' '

theorem toList_report (e : ParseError) :
    e.report.toList =
      (e.margin ++ ("--> ".toList ++ (e.number ++ (':' :: (toString (e.columnOffset + 1)).toList)))) ++
        '\n' :: ((e.margin ++ " |".toList) ++
          '\n' :: ((e.number ++ (" | ".toList ++ e.lineText.toList)) ++
            '\n' :: ((e.margin ++ (" | ".toList ++ e.pointer.toList)) ++
              '\n' :: ((e.margin ++ " |".toList) ++
                '\n' :: (e.margin ++ (" = ".toList ++ e.kind.message.toList)))))) := by
  have hbar : " |\n".toList = " |".toList ++ ['\n'] := rfl
  have hbreak : "\n".toList = ['\n'] := rfl
  have hcolon : ":".toList = [':'] := rfl
  unfold report
  simp only [String.toList_append, String.toList_ofList, ← String.length_toList,
    List.append_assoc, List.cons_append, List.nil_append, number, margin, hbar, hbreak, hcolon]

theorem break_notMem_margin (e : ParseError) : '\n' ∉ e.margin := fun h =>
  absurd (List.eq_of_mem_replicate h) (by decide)

theorem exists_reportLines {e : ParseError} (h : '\n' ∉ e.lineText.toList) :
    ∃ left right, left.length = right.length ∧
      e.reportLines[2]? = some (left ++ e.lineText.toList) ∧
      e.reportLines[3]? = some (right ++ e.pointer.toList) := by
  have hnumber : '\n' ∉ e.number := break_notMem_toString _
  have hcol := break_notMem_toString (e.columnOffset + 1)
  have hmargin := e.break_notMem_margin
  have hpointer := e.break_notMem_pointer
  refine ⟨e.number ++ " | ".toList, e.margin ++ " | ".toList, ?_, ?_⟩
  · rw [List.length_append, List.length_append, margin, List.length_replicate]
  · rw [reportLines, toList_report, List.splitOn_append_cons_self_of_not_mem,
      List.splitOn_append_cons_self_of_not_mem, List.splitOn_append_cons_self_of_not_mem,
      List.splitOn_append_cons_self_of_not_mem]
    · exact ⟨congrArg some (List.append_assoc _ _ _).symm, congrArg some (List.append_assoc _ _ _).symm⟩
    all_goals simp [-Nat.toString_eq_repr, hnumber, hcol, hmargin, hpointer, h]

theorem caretAt_min {e : ParseError} (h : '\n' ∉ e.lineText.toList) :
    e.CaretAt (min e.columnOffset e.lineText.toList.length) := by
  have hlength : ((e.lineText.toList.take e.columnOffset).map shade).length =
      min e.columnOffset e.lineText.toList.length := by
    rw [List.length_map, List.length_take]
  refine ⟨Nat.min_le_right _ _, ?_, fun i hi => ?_, ?_, exists_reportLines h⟩
  · rw [toList_pointer, List.length_append, hlength, List.length_singleton]
  · have hcol : i < e.columnOffset := Nat.lt_of_lt_of_le hi (Nat.min_le_left _ _)
    have htext : i < e.lineText.toList.length := Nat.lt_of_lt_of_le hi (Nat.min_le_right _ _)
    rw [toList_pointer, List.getElem?_append_left (by rw [hlength]; exact hi), List.getElem?_map,
      List.getElem?_take_of_lt hcol, List.getElem?_eq_getElem htext, Option.map_some, shade]
    simp only [Option.some.injEq]
  · rw [toList_pointer, List.getElem?_append_right (Nat.le_of_eq hlength), hlength, Nat.sub_self]
    rfl

section Offsets

variable {source : List Char} {offset : Nat} {p : Position}

theorem ofOffset_eq (kind : ParseErrorKind) (h : Position.at? source offset = some p) :
    ofOffset kind source offset =
      ⟨kind, offset, p.lineColumn.1, p.leading.length, String.ofList p.line⟩ := by
  rw [ofOffset, h]
  dsimp only
  rw [p.lineColumn_eq, Nat.add_sub_cancel_left]

/-- At a position of a text the caret stands under the column of the failure, and the line that is
shown is that of the position without its end. Behind a carriage return with which the line ends the
column is one more than the shown line has characters, and the caret stands at the end of the line. A
carriage return before the end of the text ends no line, but it is not shown either. -/
theorem caretAt_ofOffset (kind : ParseErrorKind) (h : Position.at? source offset = some p) :
    let e := ofOffset kind source offset
    (¬ p.BehindReturn → e.CaretAt e.columnOffset) ∧
      (p.BehindReturn → e.columnOffset = e.lineText.toList.length + 1 ∧
        e.CaretAt e.lineText.toList.length) ∧
      ∃ front line back, IsLine source front line back ∧ p.before = front ++ p.leading ∧
        e.columnOffset = p.leading.length ∧
        (p.leading <+: line ∨ p.leading = line ++ ['\r'] ∧ p.after.head? = some '\n') ∧
        e.lineText.toList =
          if back = [] ∧ line.getLast? = some '\r' then line.dropLast else line := by
  intro e
  have he : e = ⟨kind, offset, p.lineColumn.1, p.leading.length, String.ofList p.line⟩ :=
    ofOffset_eq kind h
  have hcol : e.columnOffset = p.leading.length := by rw [he]
  have hline : e.lineText.toList = p.line := by rw [he, String.toList_ofList]
  have hcaret := caretAt_min (hline ▸ p.break_notMem_line : '\n' ∉ e.lineText.toList)
  refine ⟨fun hnot => ?_, fun hreturn => ?_, ?_⟩
  · have hle : e.columnOffset ≤ e.lineText.toList.length := by
      rw [hcol, hline]
      exact (Position.leading_prefix_line hnot).length_le
    rwa [Nat.min_eq_left hle] at hcaret
  · have hlength : e.columnOffset = e.lineText.toList.length + 1 := by
      rw [hcol, hline, Position.line_of_behindReturn hreturn, List.length_append,
        List.length_singleton]
    rw [hlength, Nat.min_eq_right (Nat.le_succ _)] at hcaret
    exact ⟨hlength, hcaret⟩
  · obtain ⟨front, line, back, hisLine, hbefore, hleading, hshown⟩ := p.exists_isLine
    rw [← (Position.at?_eq_some h).1] at hisLine
    exact ⟨front, line, back, hisLine, hbefore, hcol, hleading, hline.trans hshown⟩

/-- The caret of a failure behind a tab, in a line that ends with a carriage return and a line feed. -/
theorem caretAt_ofOffset_tab :
    ∃ p, Position.at? "a\n\tb\r\nc".toList 3 = some p ∧ ¬ p.BehindReturn ∧
      (ofOffset .noMatch "a\n\tb\r\nc".toList 3).CaretAt 1 ∧
      (ofOffset .noMatch "a\n\tb\r\nc".toList 3).pointer = "\t^" := by
  have hp : Position.at? "a\n\tb\r\nc".toList 3 =
      some ⟨"a\n\t".toList, "b\r\nc".toList⟩ := by decide +kernel
  obtain ⟨hcaret, -, -⟩ := caretAt_ofOffset .noMatch hp
  have hnot : ¬ Position.BehindReturn ⟨"a\n\t".toList, "b\r\nc".toList⟩ := by decide +kernel
  exact ⟨_, hp, hnot, hcaret hnot, by decide +kernel⟩

end Offsets

end ParseError

/-! ## A carriage return that ends no line -/

/-- A letter and a carriage return before another letter. -/
def returned : Draft where
  name := "Return"
  definitions := [("top", .seq [.literal "a\r", .literal "b"])]

def returnLibrary : Library := ((Library.add {} returned).toOption).getD {}

/-- The second letter is missing behind the carriage return. No line feed follows, so the carriage
return is a character of the only line, and two characters stand before the failure. The caret stands
under the second of them, because the line is shown without the carriage return. -/
theorem Library.caret_behind_return :
    returnLibrary.Built ∧ IsLine "a\r".toList [] "a\r".toList [] ∧
      ∃ error, returnLibrary.parse 0 "a\r" {} = .error error ∧ error.failureOffset = 2 ∧
        error.columnOffset = 2 ∧ error.lineText = "a" ∧ error.pointer = " ^" ∧
        ¬ error.CaretAt error.columnOffset := by
  have herror : (match returnLibrary.parse 0 "a\r" {} with
      | .error error => some error
      | .ok _ => none) = some (.ofOffset .noMatch "a\r".toList 2) := by decide +kernel
  have hcol : (ParseError.ofOffset .noMatch "a\r".toList 2).columnOffset = 2 := by decide +kernel
  have htext : (ParseError.ofOffset .noMatch "a\r".toList 2).lineText = "a" := by decide +kernel
  refine ⟨.single rfl (by decide +kernel), ⟨rfl, by decide, .inl rfl, .inl rfl⟩, ?_⟩
  cases hparse : returnLibrary.parse 0 "a\r" {} with
  | ok m =>
      rw [hparse] at herror
      cases herror
  | error error =>
      rw [hparse] at herror
      cases herror
      refine ⟨_, rfl, rfl, hcol, htext, by decide +kernel, fun hcaret => ?_⟩
      have hinside := hcaret.inside
      rw [hcol, htext] at hinside
      exact absurd hinside (by decide)

end Peg
