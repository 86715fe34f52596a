import Peg.Proofs.Json.Tree

/-!
# Nesting of JSON texts

How deep the brackets of a text nest, counted from left to right without those in strings. Any text has
a nesting, also one that is not of the grammar. That of a text of the grammar is the depth of the tree
that it spells, and what stands behind a value is nested as it is by itself. Main statements:
`Spells.isNested` and `SpellsText.nesting_eq`.
-/

namespace Peg.Json

/-- Where in a text its next character stands. -/
inductive Quoting where
  | outside
  | inside
  /-- Inside of a string and behind a backslash. -/
  | escaped

def IsOpening (c : Char) : Prop := c = '[' ∨ c = '\x7b'

def IsClosing (c : Char) : Prop := c = ']' ∨ c = '\x7d'

instance (c : Char) : Decidable (IsOpening c) := inferInstanceAs (Decidable (_ ∨ _))

instance (c : Char) : Decidable (IsClosing c) := inferInstanceAs (Decidable (_ ∨ _))

def nestingFrom : Quoting → List Char → Nat
  | _, [] => 0
  | .outside, c :: cs =>
    if IsOpening c then nestingFrom .outside cs + 1
    else if IsClosing c then nestingFrom .outside cs - 1
    else nestingFrom (if c = '"' then .inside else .outside) cs
  | .inside, c :: cs =>
    nestingFrom (if c = '"' then .outside else if c = '\\' then .escaped else .inside) cs
  | .escaped, _ :: cs => nestingFrom .inside cs

/-- The greatest number of brackets that are open at one time, strings apart. -/
def nesting (text : List Char) : Nat := nestingFrom .outside text

example : nesting "[[], \x7b\"]\": [\"[[[\"]\x7d".toList = 3 := by decide

/-- The text is nested `k` deep, and what stands behind it is nested as it is by itself. -/
def IsNested (k : Nat) (u : List Char) : Prop :=
  ∀ rest, nesting (u ++ rest) = max k (nesting rest)

section Append

variable {k l : Nat} {u v : List Char}

theorem IsNested.nesting_eq (h : IsNested k u) : nesting u = k := by
  have hnil := h []
  rwa [List.append_nil, nesting, nesting, nestingFrom, Nat.max_zero] at hnil

theorem isNested_nil : IsNested 0 [] := fun _ => (Nat.zero_max _).symm

theorem IsNested.append (hu : IsNested k u) (hv : IsNested l v) : IsNested (max k l) (u ++ v) := by
  intro rest
  rw [List.append_assoc, hu, hv, Nat.max_assoc]

/-- What stands behind the text is nested no deeper than the two together. -/
def KeepsNesting (u : List Char) : Prop := ∀ rest, nesting rest ≤ nesting (u ++ rest)

theorem IsNested.keepsNesting (h : IsNested k u) : KeepsNesting u := fun rest =>
  h rest ▸ Nat.le_max_right k _

theorem KeepsNesting.append (hu : KeepsNesting u) (hv : KeepsNesting v) :
    KeepsNesting (u ++ v) := fun rest => by
  rw [List.append_assoc]
  exact (hv rest).trans (hu (v ++ rest))

theorem KeepsNesting.flatten {us : List (List Char)} (h : ∀ u ∈ us, KeepsNesting u) :
    KeepsNesting us.flatten := by
  induction us with
  | nil => exact isNested_nil.keepsNesting
  | cons u us ih =>
      obtain ⟨hu, hus⟩ := List.forall_mem_cons.1 h
      exact hu.append (ih hus)

end Append

/-! ## Tokens -/

/-- A character that neither is a bracket nor opens a string. -/
def IsPlain (c : Char) : Prop := c ∉ ['[', ']', '\x7b', '\x7d', '"']

instance (c : Char) : Decidable (IsPlain c) := inferInstanceAs (Decidable (¬ _))

section Plain

variable {c : Char} {u : List Char}

theorem isNested_plain (h : ∀ c ∈ u, IsPlain c) : IsNested 0 u := by
  intro rest
  induction u with
  | nil => exact isNested_nil rest
  | cons c cs ih =>
      obtain ⟨hc, hcs⟩ := List.forall_mem_cons.1 h
      simp only [IsPlain, List.mem_cons, not_or] at hc
      rw [← ih hcs, List.cons_append, nesting, nestingFrom]
      simp [IsOpening, IsClosing, hc, nesting]

theorem isNested_of_all (h : u.all (fun c => decide (IsPlain c)) = true) : IsNested 0 u :=
  isNested_plain fun c hc => of_decide_eq_true (List.all_eq_true.1 h c hc)

theorem isPlain_of_isDigit (h : c.isDigit = true) : IsPlain c := by
  intro hc
  simp only [List.mem_cons, List.not_mem_nil, or_false] at hc
  rcases hc with rfl | rfl | rfl | rfl | rfl <;> cases h

theorem isPlain_of_isDigits (h : IsDigits u) : ∀ c ∈ u, IsPlain c := fun c hc =>
  isPlain_of_isDigit (h.2 c hc)

theorem isPlain_of_isSpace (h : IsSpace u) : ∀ c ∈ u, IsPlain c := by
  intro c hc
  have hblank := h c hc
  simp only [isBlank, Bool.or_eq_true, decide_eq_true_eq] at hblank
  rcases hblank with ((rfl | rfl) | rfl) | rfl <;> decide

theorem isPlain_of_isScale (h : IsScale u) : ∀ c ∈ u, IsPlain c := by
  obtain ⟨fraction, exponent, rfl, hfraction, hexponent⟩ := h
  rw [List.forall_mem_append]
  constructor
  · rcases hfraction with rfl | ⟨ds, rfl, hds⟩
    · exact List.forall_mem_nil _
    · exact List.forall_mem_cons.2 ⟨by decide, isPlain_of_isDigits hds⟩
  · rcases hexponent with rfl | ⟨mark, signed, rfl, hmark, hsigned⟩
    · exact List.forall_mem_nil _
    · refine List.forall_mem_cons.2 ⟨by rcases hmark with rfl | rfl <;> decide, ?_⟩
      rcases hsigned with hds | ⟨sign, ds, rfl, hsign, hds⟩
      · exact isPlain_of_isDigits hds
      · exact List.forall_mem_cons.2
          ⟨by rcases hsign with rfl | rfl <;> decide, isPlain_of_isDigits hds⟩

theorem isPlain_of_isNumber (h : IsNumber u) : ∀ c ∈ u, IsPlain c := by
  have hunsigned {u : List Char} (h : IsUnsigned u) : ∀ c ∈ u, IsPlain c := by
    obtain ⟨whole, scale, rfl, hwhole, hscale⟩ := h
    rw [List.forall_mem_append]
    refine ⟨?_, isPlain_of_isScale hscale⟩
    rcases hwhole with rfl | ⟨c, ds, rfl, -, hds⟩
    · exact List.forall_mem_singleton.2 (by decide)
    · exact isPlain_of_isDigits hds
  rcases h with h | ⟨rest, rfl, h⟩
  · exact hunsigned h
  · exact List.forall_mem_cons.2 ⟨by decide, hunsigned h⟩

theorem isNested_space (h : IsSpace u) : IsNested 0 u := isNested_plain (isPlain_of_isSpace h)

theorem isNested_structural (hc : IsPlain c) (h : IsStructural c u) : IsNested 0 u := by
  obtain ⟨before, after, rfl, hbefore, hafter⟩ := h
  apply isNested_plain
  rw [List.forall_mem_append, List.forall_mem_cons]
  exact ⟨isPlain_of_isSpace hbefore, hc, isPlain_of_isSpace hafter⟩

end Plain

theorem nestingFrom_body {body : List Char} (h : IsBody body) (rest : List Char) :
    nestingFrom .inside (body ++ '"' :: rest) = nesting rest := by
  induction h with
  | nil => rfl
  | unescaped hc _ ih =>
      rw [List.cons_append, nestingFrom, if_neg hc.2.1, if_neg hc.2.2]
      exact ih
  | escape _ _ ih => exact ih
  | codePoint ha hb hc hd _ ih =>
      have hdigit {c : Char} (h : IsHexDigit c) : c ≠ '"' ∧ c ≠ '\\' := by
        constructor <;> rintro rfl <;> revert h <;> decide
      simpa [nestingFrom, hdigit ha, hdigit hb, hdigit hc, hdigit hd] using ih

theorem isNested_string {u : List Char} (h : IsString u) : IsNested 0 u := by
  obtain ⟨body, rfl, hbody⟩ := h
  intro rest
  rw [List.cons_append, List.append_assoc, List.singleton_append, Nat.zero_max]
  exact nestingFrom_body hbody rest

/-! ## Brackets -/

theorem nesting_opening {c : Char} (h : IsOpening c) (rest : List Char) :
    nesting (c :: rest) = nesting rest + 1 := by
  rw [nesting, nestingFrom, if_pos h, nesting]

theorem nesting_closing {c : Char} (h : IsClosing c) (rest : List Char) :
    nesting (c :: rest) = nesting rest - 1 := by
  rw [nesting, nestingFrom, if_neg (by rcases h with rfl | rfl <;> decide), if_pos h, nesting]

def greatest (depths : List Nat) : Nat := depths.foldr max 0

theorem greatest_cons (k : Nat) (ks : List Nat) : greatest (k :: ks) = max k (greatest ks) := rfl

section Lists

variable {α : Type} {depth : α → Nat} {first last : Char} {k : Nat} {u : List Char} {as : List α}

theorem isNested_enclosed (hfirst : IsOpening first) (hlast : IsClosing last) (h : IsNested k u) :
    IsNested (k + 1) (first :: (u ++ [last])) := by
  intro rest
  rw [List.cons_append, nesting_opening hfirst, List.append_assoc, h, List.singleton_append,
    nesting_closing hlast]
  omega

theorem Items.isNested (h : Items (fun u a => IsNested (depth a) u) u as) :
    IsNested (greatest (as.map depth)) u := by
  induction h with
  | one hu =>
      rw [List.map_singleton, greatest_cons, greatest, List.foldr_nil, Nat.max_zero]
      exact hu
  | more hu hseparator _ ih =>
      have hbehind := (isNested_structural (by decide) hseparator).append ih
      rw [Nat.zero_max] at hbehind
      exact hu.append hbehind

/-- Brackets are nested one level deeper than what stands between them. -/
theorem Bracketed.isNested (hfirst : IsOpening first) (hlast : IsClosing last)
    (h : Bracketed first last (fun u a => IsNested (depth a) u) u as) :
    IsNested (greatest (as.map depth) + 1) u := by
  obtain ⟨before, inner, after, rfl, hbefore, hafter, hinner⟩ :
      ∃ before inner after, u = before ++ ((first :: (inner ++ [last])) ++ after) ∧
        IsSpace before ∧ IsSpace after ∧ IsNested (greatest (as.map depth)) inner := by
    cases h with
    | empty hopen hclose =>
        obtain ⟨before, v, rfl, hbefore, hv⟩ := hopen
        obtain ⟨w, after, rfl, hw, hafter⟩ := hclose
        exact ⟨before, v ++ w, after, by simp, hbefore, hafter,
          isNested_space (isSpace_append_iff.2 ⟨hv, hw⟩)⟩
    | items hopen hitems hclose =>
        obtain ⟨before, v, rfl, hbefore, hv⟩ := hopen
        obtain ⟨w, after, rfl, hw, hafter⟩ := hclose
        have hinner := (isNested_space hv).append (hitems.isNested.append (isNested_space hw))
        rw [Nat.zero_max, Nat.max_zero] at hinner
        exact ⟨before, _, after, by simp, hbefore, hafter, hinner⟩
  have hwhole := (isNested_space hbefore).append
    ((isNested_enclosed hfirst hlast hinner).append (isNested_space hafter))
  rwa [Nat.zero_max, Nat.max_zero] at hwhole

end Lists

theorem isNested_member {name separator u : List Char} {k : Nat} (hname : IsString name)
    (hseparator : IsStructural ':' separator) (h : IsNested k u) :
    IsNested k (name ++ (separator ++ u)) := by
  have hmember := (isNested_string hname).append
    ((isNested_structural (by decide) hseparator).append h)
  rwa [Nat.zero_max, Nat.zero_max] at hmember

/-! ## Trees -/

namespace Tree

mutual

/-- How many brackets stand around the innermost item of a tree. -/
def depth : Tree → Nat
  | null => 0
  | bool _ => 0
  | number _ => 0
  | string _ => 0
  | array items => greatest (itemDepths items) + 1
  | object members => greatest (memberDepths members) + 1

def itemDepths : List Tree → List Nat
  | [] => []
  | t :: ts => t.depth :: itemDepths ts

def memberDepths : List (List Char × Tree) → List Nat
  | [] => []
  | (_, t) :: members => t.depth :: memberDepths members

end

theorem itemDepths_eq (items : List Tree) : itemDepths items = items.map depth := by
  induction items with
  | nil => rfl
  | cons t ts ih => rw [itemDepths, ih, List.map_cons]

theorem memberDepths_eq (members : List (List Char × Tree)) :
    memberDepths members = members.map fun member => member.2.depth := by
  induction members with
  | nil => rfl
  | cons member members ih => rw [memberDepths, ih, List.map_cons]

end Tree

/-- A text that spells a tree is nested as deep as the tree. -/
theorem Spells.isNested {u : List Char} {t : Tree} (h : Spells u t) : IsNested t.depth u := by
  induction t using Tree.inductionOn generalizing u with
  | null =>
      cases h
      exact isNested_of_all (by decide)
  | bool b =>
      cases h
      exact isNested_of_all (by cases b <;> decide)
  | number token =>
      cases h with
      | number hu => exact isNested_plain (isPlain_of_isNumber hu)
  | string token =>
      cases h with
      | string hu => exact isNested_string hu
  | array items ih =>
      cases h with
      | array hitems =>
          have hnested := Bracketed.map (S := fun u t => IsNested (Tree.depth t) u) (f := id) hitems
            fun t ht u hu => ih t ht hu
          rw [List.map_id] at hnested
          rw [Tree.depth, Tree.itemDepths_eq]
          exact hnested.isNested (.inl rfl) (.inl rfl)
  | object members ih =>
      cases h with
      | object hmembers =>
          have hnested := Bracketed.map (S := fun u member => IsNested (Tree.depth member.2) u)
            (f := id) hmembers fun member hmember u hu => by
              cases hu with
              | pair hname hseparator hu =>
                  exact isNested_member hname hseparator (ih _ hmember hu)
          rw [List.map_id] at hnested
          rw [Tree.depth, Tree.memberDepths_eq]
          exact hnested.isNested (.inr rfl) (.inr rfl)

theorem SpellsText.nesting_eq {text : List Char} {t : Tree} (h : SpellsText text t) :
    nesting text = t.depth := by
  obtain ⟨before, u, after, rfl, hbefore, hafter, hu⟩ := h
  have hwhole := (isNested_space hbefore).append (hu.isNested.append (isNested_space hafter))
  rw [Nat.zero_max, Nat.max_zero] at hwhole
  exact hwhole.nesting_eq

theorem IsValue.keepsNesting {u : List Char} {v : Value} (h : IsValue u v) : KeepsNesting u := by
  obtain ⟨t, ht, -⟩ := isValue_iff_exists_tree.1 h
  exact ht.isNested.keepsNesting

theorem IsMember.keepsNesting {u : List Char} {member : List Char × Value} (h : IsMember u member) :
    KeepsNesting u := by
  obtain ⟨hname, hseparator, hu⟩ := h
  exact (isNested_string hname).keepsNesting.append
    ((isNested_structural (by decide) hseparator).keepsNesting.append hu.keepsNesting)

end Peg.Json
