import Mathlib.Data.List.DropRight
import Mathlib.Data.Prod.Lex
import Peg.Proofs.Text.Place
import Peg.Text.Position

/-!
# Lines and columns as coordinates

A position lies on the piece of the text between the line feeds around it. The part of this piece before
the position gives its column, and the number of line feeds before it gives its line. Main statement:
`Position.lineColumn_faithful`.
-/

namespace Peg

section Breaks

variable {text more : List Char}

theorem rtakeWhile_append_break (text more : List Char) :
    (text ++ '\n' :: more).rtakeWhile (· ≠ '\n') = more.rtakeWhile (· ≠ '\n') := by
  have hbreak : ('\n' :: text.reverse).takeWhile (· ≠ '\n') = [] := by simp
  simp only [List.rtakeWhile, List.reverse_append, List.reverse_cons, List.append_assoc,
    List.singleton_append, List.takeWhile_append, hbreak, List.append_nil]
  split
  · next hall => rw [(List.takeWhile_prefix _).eq_of_length hall]
  · rfl

theorem rtakeWhile_append (h : '\n' ∉ more) :
    (text ++ more).rtakeWhile (· ≠ '\n') = text.rtakeWhile (· ≠ '\n') ++ more := by
  have hall : ∀ c ∈ more.reverse, decide (c ≠ '\n') = true := by
    intro c hc
    rw [decide_eq_true_eq]
    rintro rfl
    exact h (List.mem_reverse.1 hc)
  rw [List.rtakeWhile, List.reverse_append, List.takeWhile_append_of_pos hall, List.reverse_append,
    List.reverse_reverse, List.rtakeWhile]

theorem rtakeWhile_of_notMem (h : '\n' ∉ text) : text.rtakeWhile (· ≠ '\n') = text := by
  have hall : ([] ++ text).rtakeWhile (· ≠ '\n') = [] ++ text := rtakeWhile_append h
  rwa [List.nil_append] at hall

theorem length_splitOn_break (text : List Char) :
    (text.splitOn '\n').length = text.count '\n' + 1 := by
  induction text with
  | nil => rfl
  | cons c cs ih =>
      rw [List.splitOn_cons_eq_if_modifyHead, List.count_cons]
      split
      · rw [List.length_cons, ih]
      · rw [List.length_modifyHead, ih, Nat.add_zero]

end Breaks

theorem lineColumnFrom_eq (line col : Nat) (text : List Char) :
    lineColumnFrom line col text =
      (line + text.count '\n',
        (if '\n' ∈ text then 1 else col) + (text.rtakeWhile (· ≠ '\n')).length) := by
  fun_induction lineColumnFrom line col text with
  | case1 line col => simp
  | case2 line col cs ih =>
      have hbreak := rtakeWhile_append_break ['\r'] cs
      rw [List.singleton_append] at hbreak
      rw [ih, hbreak, ite_self, if_pos (by simp), List.count_cons_of_ne (by decide), List.count_cons_self]
      congr 1
      omega
  | case3 line col cs hcs ih =>
      have hbreak := rtakeWhile_append_break [] cs
      rw [List.nil_append] at hbreak
      rw [ih, hbreak, ite_self, if_pos List.mem_cons_self, List.count_cons_self]
      congr 1
      omega
  | case4 line col c cs hcs hc ih =>
      rw [ih, List.count_cons_of_ne hc]
      by_cases hmem : '\n' ∈ cs
      · obtain ⟨front, back, rfl⟩ := List.append_of_mem hmem
        rw [← List.cons_append, rtakeWhile_append_break, rtakeWhile_append_break, if_pos hmem,
          if_pos (by simp)]
      · have hnot : '\n' ∉ c :: cs := fun h => (List.mem_cons.1 h).elim (hc ∘ Eq.symm) hmem
        rw [rtakeWhile_of_notMem hmem, rtakeWhile_of_notMem hnot, if_neg hmem, if_neg hnot,
          List.length_cons]
        congr 1
        omega

namespace Position

/-- The part of the line before the position. -/
def leading (p : Position) : List Char := p.before.rtakeWhile (· ≠ '\n')

/-- The part of the line behind the position. -/
def trailing (p : Position) : List Char := p.after.takeWhile (· ≠ '\n')

/-- The line with the carriage return at its end, if it has one. -/
def piece (p : Position) : List Char := p.leading ++ p.trailing

theorem line_eq (p : Position) :
    p.line = if p.piece.getLast? = some '\r' then p.piece.dropLast else p.piece := rfl

theorem lineColumn_eq (p : Position) :
    p.lineColumn = (1 + p.before.count '\n', 1 + p.leading.length) := by
  rw [lineColumn, lineColumnFrom_eq, ite_self, leading]

theorem break_notMem_leading (p : Position) : '\n' ∉ p.leading := by
  intro h
  have hne := List.mem_rtakeWhile_imp h
  exact absurd rfl (of_decide_eq_true hne)

theorem break_notMem_trailing (p : Position) : '\n' ∉ p.trailing := by
  intro h
  have hne := List.mem_takeWhile_imp h
  exact absurd rfl (of_decide_eq_true hne)

theorem break_notMem_piece (p : Position) : '\n' ∉ p.piece := fun h =>
  (List.mem_append.1 h).elim p.break_notMem_leading p.break_notMem_trailing

theorem exists_before_eq (p : Position) :
    ∃ front, p.before = front ++ p.leading ∧ (front = [] ∨ ∃ u, front = u ++ ['\n']) := by
  refine ⟨p.before.rdropWhile (· ≠ '\n'), List.rdropWhile_append_rtakeWhile.symm, ?_⟩
  by_cases hnil : p.before.rdropWhile (· ≠ '\n') = []
  · exact .inl hnil
  · have hlast := List.rdropWhile_last_not (· ≠ '\n') p.before hnil
    rw [decide_eq_true_eq, not_not] at hlast
    have hfront := List.dropLast_append_getLast hnil
    rw [hlast] at hfront
    exact .inr ⟨_, hfront.symm⟩

theorem exists_after_eq (p : Position) :
    ∃ back, p.after = p.trailing ++ back ∧ (back = [] ∨ ∃ u, back = '\n' :: u) := by
  refine ⟨p.after.dropWhile (· ≠ '\n'), List.takeWhile_append_dropWhile.symm, ?_⟩
  by_cases hnil : p.after.dropWhile (· ≠ '\n') = []
  · exact .inl hnil
  · have hhead := List.head_dropWhile_not (· ≠ '\n') hnil
    rw [decide_eq_false_iff_not, not_not] at hhead
    have hback := List.cons_head_tail hnil
    rw [hhead] at hback
    exact .inr ⟨_, hback.symm⟩

theorem text_eq {p : Position} {front back : List Char} (hbefore : p.before = front ++ p.leading)
    (hafter : p.after = p.trailing ++ back) : p.before ++ p.after = front ++ (p.piece ++ back) := by
  calc p.before ++ p.after = (front ++ p.leading) ++ (p.trailing ++ back) := by
        rw [← hbefore, ← hafter]
    _ = front ++ (p.piece ++ back) := by simp only [piece, List.append_assoc]

theorem getElem?_splitOn_break (p : Position) :
    ((p.before ++ p.after).splitOn '\n')[p.before.count '\n']? = some p.piece := by
  obtain ⟨front, hbefore, hfront⟩ := p.exists_before_eq
  obtain ⟨back, hafter, hback⟩ := p.exists_after_eq
  have hcount : p.before.count '\n' = front.count '\n' := by
    rw [hbefore, List.count_append, List.count_eq_zero_of_not_mem p.break_notMem_leading, Nat.add_zero]
  have hfirst : ((p.piece ++ back).splitOn '\n')[0]? = some p.piece := by
    rcases hback with rfl | ⟨u, rfl⟩
    · rw [List.append_nil, List.splitOn_eq_singleton p.break_notMem_piece, List.getElem?_cons_zero]
    · rw [List.splitOn_append_cons_self_of_not_mem p.break_notMem_piece, List.getElem?_cons_zero]
  rw [hcount, text_eq hbefore hafter]
  rcases hfront with rfl | ⟨u, rfl⟩
  · rw [List.nil_append, List.count_nil, hfirst]
  · have hlength : (u.splitOn '\n').length = (u ++ ['\n']).count '\n' := by
      rw [length_splitOn_break, List.count_append, List.count_singleton_self]
    rw [List.append_assoc, List.singleton_append, List.splitOn_append_cons_self, ← hlength,
      List.getElem?_append_right (Nat.le_refl _), Nat.sub_self, hfirst]

theorem lineColumn_lt {p q : Position} {more : List Char} (hne : more ≠ [])
    (h : q.before = p.before ++ more) : toLex p.lineColumn < toLex q.lineColumn := by
  rw [lineColumn_eq, lineColumn_eq, Prod.Lex.toLex_lt_toLex, leading, leading, h, List.count_append]
  by_cases hmem : '\n' ∈ more
  · have hpos := List.count_pos_iff.2 hmem
    exact .inl (by omega)
  · have hlength := List.length_pos_iff.2 hne
    rw [List.count_eq_zero_of_not_mem hmem, rtakeWhile_append hmem, List.length_append]
    exact .inr ⟨rfl, by omega⟩

variable {source : List Char} {offset offset' : Nat} {p q : Position}

theorem at?_eq_some (h : Position.at? source offset = some p) :
    source = p.before ++ p.after ∧ offset = byteLength p.before := by
  obtain ⟨place, hplace, rfl⟩ := Option.map_eq_some_iff.1 h
  obtain ⟨⟨before, hsource, hbefore⟩, hoffset⟩ := Place.at?_eq_some_iff.1 hplace
  have htake := takeBytes_byteLength_append before place.rest
  rw [← hsource, ← hbefore, hoffset] at htake
  rw [htake]
  exact ⟨hsource, hoffset.symm.trans hbefore⟩

theorem exists_before_append (hp : Position.at? source offset = some p)
    (hq : Position.at? source offset' = some q) (hlt : offset < offset') :
    ∃ more, more ≠ [] ∧ q.before = p.before ++ more := by
  obtain ⟨hsource, rfl⟩ := at?_eq_some hp
  obtain ⟨hsource', rfl⟩ := at?_eq_some hq
  rcases List.append_eq_append_iff.1 (hsource.symm.trans hsource') with
    ⟨more, hbefore, -⟩ | ⟨more, hbefore, -⟩
  · refine ⟨more, ?_, hbefore⟩
    rintro rfl
    rw [hbefore, List.append_nil] at hlt
    exact Nat.lt_irrefl _ hlt
  · rw [hbefore, byteLength_append] at hlt
    omega

/-- Lines are counted by the line feeds before the position and columns by the characters since the last
of them. A carriage return that belongs to a line feed is such a character only between the two. The
coordinates grow with the offset, so different places of a text have different ones. The line of the
position is the piece of its number between the line feeds of the text, without a carriage return at
its end. -/
theorem lineColumn_faithful (hp : Position.at? source offset = some p)
    (hq : Position.at? source offset' = some q) :
    p.lineColumn = (1 + p.before.count '\n', 1 + p.leading.length) ∧
      (∀ front back, p.leading = front ++ '\r' :: back → (back ++ p.after).head? = some '\n' →
        back = []) ∧
      (offset < offset' → toLex p.lineColumn < toLex q.lineColumn) ∧
      (p.lineColumn = q.lineColumn → offset = offset') ∧
      ∃ piece, (source.splitOn '\n')[p.lineColumn.1 - 1]? = some piece ∧
        p.line = if piece.getLast? = some '\r' then piece.dropLast else piece := by
  refine ⟨p.lineColumn_eq, fun front back hleading hhead => ?_, fun hlt => ?_, fun heq => ?_, ?_⟩
  · cases back with
    | nil => rfl
    | cons c back =>
        rw [List.cons_append, List.head?_cons, Option.some.injEq] at hhead
        refine absurd ?_ p.break_notMem_leading
        rw [hleading, hhead]
        simp
  · obtain ⟨more, hne, hbefore⟩ := exists_before_append hp hq hlt
    exact lineColumn_lt hne hbefore
  · rcases Nat.lt_trichotomy offset offset' with hlt | hoffset | hlt
    · obtain ⟨more, hne, hbefore⟩ := exists_before_append hp hq hlt
      exact absurd (congrArg toLex heq) (ne_of_lt (lineColumn_lt hne hbefore))
    · exact hoffset
    · obtain ⟨more, hne, hbefore⟩ := exists_before_append hq hp hlt
      exact absurd (congrArg toLex heq.symm) (ne_of_lt (lineColumn_lt hne hbefore))
  · refine ⟨p.piece, ?_, p.line_eq⟩
    rw [(at?_eq_some hp).1, lineColumn_eq, Nat.add_sub_cancel_left]
    exact p.getElem?_splitOn_break

/-- A position between a carriage return and a line feed, and the next one. -/
theorem lineColumn_faithful_return :
    ∃ p q, Position.at? "a\rb\nc\r\nd嗨".toList 6 = some p ∧
      Position.at? "a\rb\nc\r\nd嗨".toList 7 = some q ∧ p.lineColumn = (2, 3) ∧
      q.lineColumn = (3, 1) ∧ toLex p.lineColumn < toLex q.lineColumn ∧ p.line = ['c'] := by
  have hp : Position.at? "a\rb\nc\r\nd嗨".toList 6 =
      some ⟨"a\rb\nc\r".toList, "\nd嗨".toList⟩ := by decide +kernel
  have hq : Position.at? "a\rb\nc\r\nd嗨".toList 7 =
      some ⟨"a\rb\nc\r\n".toList, "d嗨".toList⟩ := by decide +kernel
  obtain ⟨hcoordinates, -, hlt, -, -⟩ := lineColumn_faithful hp hq
  exact ⟨_, _, hp, hq, hcoordinates.trans (by decide +kernel), by decide +kernel, hlt (by decide),
    by decide +kernel⟩

end Position

end Peg
