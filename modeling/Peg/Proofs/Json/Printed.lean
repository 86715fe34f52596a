import Mathlib.Data.List.Forall2
import Peg.Json.Document
import Peg.Proofs.Json.Evaluation
import Peg.Proofs.Json.Literals

/-!
# Printed documents

What is printed can be read again. The digits of a number are a number token and the quoted text of a
string is a string token; lines and indentation are white space around structural characters, so that
a printed document is a text of the grammar, at every depth. Numbers come back as they are if they fit
into the significand of 64 bits. Main statement: `parse_pretty`.
-/

namespace Peg.Json

/-! ## Numbers -/

theorem isInteger_toDigits (n : Nat) : IsInteger (Nat.toDigits 10 n) := by
  induction n using Nat.strongRecOn with
  | ind n ih =>
      by_cases hlt : n < 10
      · rw [Nat.toDigits_of_lt_base hlt]
        by_cases hzero : n = 0
        · subst hzero
          exact .inl rfl
        · refine .inr ⟨_, [], rfl, fun h => hzero (Nat.digitChar_eq_zero.1 h), ?_⟩
          simp [isDigits_cons_iff, Nat.isDigit_digitChar, hlt]
      · have hback : (n % 10).digitChar.isDigit = true := by
          rw [Nat.isDigit_digitChar]
          exact decide_eq_true (Nat.mod_lt n (by decide))
        have hfront : Nat.toDigits 10 (n / 10) ≠ ['0'] := fun h => by
          have := congrArg (Nat.ofDigitChars 10 · 0) h
          rw [Nat.ofDigitChars_ten_toDigits] at this
          have : n / 10 = 0 := this
          omega
        rw [Nat.toDigits_of_base_le (by decide) (Nat.le_of_not_lt hlt)]
        rcases ih (n / 10) (by omega) with h | ⟨c, ds, h, hc, hdigits⟩
        · exact absurd h hfront
        · rw [h]
          refine .inr ⟨c, ds ++ [(n % 10).digitChar], rfl, hc, List.cons_ne_nil _ _, fun d hd => ?_⟩
          rw [← List.cons_append] at hd
          rcases List.mem_append.1 hd with hd | hd
          · exact hdigits.2 d hd
          · exact List.mem_singleton.1 hd ▸ hback

theorem isNumber_toDigits (n : Nat) : IsNumber (Nat.toDigits 10 n) :=
  .inl ⟨_, [], (List.append_nil _).symm, isInteger_toDigits n, isScale_nil⟩

/-! ## Strings -/

theorem isCodeUnit_control {n : Nat} (h : n < 32) :
    IsCodeUnit ('0' :: '0' :: ((if n < 16 then ['0'] else []) ++ Nat.toDigits 16 n)) n := by
  have hdigit : ∀ n < 16, IsHexDigit (Nat.digitChar n) ∧ hexValue (Nat.digitChar n) = n := by decide
  have hzero : IsHexDigit '0' := by decide
  by_cases hlt : n < 16
  · obtain ⟨hn, hvalue⟩ := hdigit n hlt
    rw [if_pos hlt, Nat.toDigits_of_lt_base hlt]
    refine ⟨'0', '0', '0', _, rfl, hzero, hzero, hzero, hn, ?_⟩
    rw [hvalue]
    simp [hexValue]
  · obtain ⟨hn, hvalue⟩ := hdigit (n % 16) (Nat.mod_lt n (by decide))
    have hone : n / 16 = 1 := by omega
    rw [if_neg hlt, Nat.toDigits_of_base_le (by decide) (Nat.le_of_not_lt hlt), hone]
    refine ⟨'0', '0', '1', _, rfl, hzero, hzero, by decide, hn, ?_⟩
    rw [hvalue]
    have : hexValue '0' = 0 ∧ hexValue '1' = 1 := by decide
    omega

namespace Document

theorem standsFor_control {c : Char} (hc : c < ' ') {rest cs : List Char} (h : StandsFor rest cs) :
    StandsFor
      (("\\u00" ++ (if c < '\x10' then "0" else "") ++ Text.hex c.toNat).toList ++ rest)
      (c :: cs) := by
  have hcode : c.toNat < 32 := hc
  have hunit := StandsFor.codePoint (isCodeUnit_control hcode)
    (by simp [isHighSurrogate]; omega) (by simp [isLowSurrogate]; omega) h
  have hfill : (if c < '\x10' then "0" else "").toList = if c.toNat < 16 then ['0'] else [] :=
    apply_ite String.toList (c < '\x10') "0" ""
  rw [Char.ofNat_toNat] at hunit
  rw [String.toList_append, String.toList_append, hfill, Text.hex, String.toList_ofList]
  simpa using hunit

theorem standsFor_escape (c : Char) {rest cs : List Char} (h : StandsFor rest cs) :
    StandsFor ((escape c).toList ++ rest) (c :: cs) := by
  unfold escape
  split_ifs with hquote hbackslash hbreak hreturn htab hbackspace hfeed hcontrol hsmall
  · exact .escape (hquote ▸ rfl) h
  · exact .escape (hbackslash ▸ rfl) h
  · exact .escape (hbreak ▸ rfl) h
  · exact .escape (hreturn ▸ rfl) h
  · exact .escape (htab ▸ rfl) h
  · exact .escape (hbackspace ▸ rfl) h
  · exact .escape (hfeed ▸ rfl) h
  · have hstands := standsFor_control hcontrol h
    rwa [if_pos hsmall] at hstands
  · have hstands := standsFor_control hcontrol h
    rwa [if_neg hsmall] at hstands
  · rw [String.toList_singleton]
    exact .unescaped ⟨Char.not_lt.1 hcontrol, hquote, hbackslash⟩ h

theorem standsFor_flatMap_escape (cs : List Char) :
    StandsFor (cs.flatMap fun c => (escape c).toList) cs := by
  induction cs with
  | nil => exact .nil
  | cons c cs ih => exact standsFor_escape c ih

theorem toList_quote (s : String) :
    (quote s).toList = '"' :: ((s.toList.flatMap fun c => (escape c).toList) ++ ['"']) := by
  have hfold : ∀ (cs : List Char) (out : String),
      (cs.foldl (fun out c => out ++ escape c) out).toList =
        out.toList ++ cs.flatMap fun c => (escape c).toList := by
    intro cs
    induction cs with
    | nil => simp
    | cons c cs ih => simp [ih, List.append_assoc]
  rw [quote, String.foldl_eq_foldl_toList, String.toList_append, hfold]
  rfl

theorem isString_quote (s : String) : IsString (quote s).toList :=
  ⟨_, toList_quote s, (standsFor_flatMap_escape s.toList).isBody⟩

theorem string?_quote (s : String) : string? (quote s).toList = some s.toList := by
  rw [toList_quote]
  exact readsLiterals.string_eq (standsFor_flatMap_escape s.toList)

/-! ## Documents -/

theorem inductionOn {motive : Document → Prop} (d : Document) (number : ∀ n, motive (.number n))
    (string : ∀ s, motive (.string s))
    (array : ∀ items, (∀ d ∈ items, motive d) → motive (.array items))
    (object : ∀ fields, (∀ field ∈ fields, motive field.2) → motive (.object fields)) : motive d :=
  @Document.rec motive (fun items => ∀ d ∈ items, motive d)
    (fun fields => ∀ field ∈ fields, motive field.2) (fun field => motive field.2)
    number string array object
    (List.forall_mem_nil _) (fun _ _ hd hds => List.forall_mem_cons.2 ⟨hd, hds⟩)
    (List.forall_mem_nil _) (fun _ _ hf hfs => List.forall_mem_cons.2 ⟨hf, hfs⟩) (fun _ _ hd => hd) d

mutual

def value : Document → Value
  | number n => .int n
  | string s => .string s
  | array items => .array (values items)
  | object fields => .ofFields (fieldValues fields)

def values : List Document → List Value
  | [] => []
  | d :: ds => d.value :: values ds

def fieldValues : List (String × Document) → List (String × Value)
  | [] => []
  | (key, d) :: fields => (key, d.value) :: fieldValues fields

end

mutual

/-- All numbers of a document fit into the significand. -/
def Exact : Document → Prop
  | number n => n ≤ maxSignificand
  | string _ => True
  | array items => ExactItems items
  | object fields => ExactFields fields

def ExactItems : List Document → Prop
  | [] => True
  | d :: ds => d.Exact ∧ ExactItems ds

def ExactFields : List (String × Document) → Prop
  | [] => True
  | (_, d) :: fields => d.Exact ∧ ExactFields fields

end

mutual

/-- How many brackets the printed document has around its innermost item. -/
def depth : Document → Nat
  | number _ => 0
  | string _ => 0
  | array items => greatest (itemDepths items) + 1
  | object fields => greatest (fieldDepths fields) + 1

def itemDepths : List Document → List Nat
  | [] => []
  | d :: ds => d.depth :: itemDepths ds

def fieldDepths : List (String × Document) → List Nat
  | [] => []
  | (_, d) :: fields => d.depth :: fieldDepths fields

end

theorem values_eq (items : List Document) : values items = items.map value := by
  induction items with
  | nil => rfl
  | cons d ds ih => rw [values, ih, List.map_cons]

theorem fieldValues_eq (fields : List (String × Document)) :
    fieldValues fields = fields.map fun field => (field.1, field.2.value) := by
  induction fields with
  | nil => rfl
  | cons field fields ih => rw [fieldValues, ih, List.map_cons]

theorem exactItems_iff {items : List Document} : ExactItems items ↔ ∀ d ∈ items, d.Exact := by
  induction items with
  | nil => simp [ExactItems]
  | cons d ds ih => rw [ExactItems, ih, List.forall_mem_cons]

theorem exactFields_iff {fields : List (String × Document)} :
    ExactFields fields ↔ ∀ field ∈ fields, field.2.Exact := by
  induction fields with
  | nil => simp [ExactFields]
  | cons field fields ih => rw [ExactFields, ih, List.forall_mem_cons]

theorem itemDepths_eq (items : List Document) : itemDepths items = items.map depth := by
  induction items with
  | nil => rfl
  | cons d ds ih => rw [itemDepths, ih, List.map_cons]

theorem fieldDepths_eq (fields : List (String × Document)) :
    fieldDepths fields = fields.map fun field => field.2.depth := by
  induction fields with
  | nil => rfl
  | cons field fields ih => rw [fieldDepths, ih, List.map_cons]

theorem prettyItems_eq (level : Nat) (items : List Document) :
    prettyItems level items = items.map (prettyAt level) := by
  induction items with
  | nil => rfl
  | cons d ds ih => rw [prettyItems, ih, List.map_cons]

theorem prettyFields_eq (level : Nat) (fields : List (String × Document)) :
    prettyFields level fields =
      fields.map fun field => quote field.1 ++ ": " ++ prettyAt level field.2 := by
  induction fields with
  | nil => rfl
  | cons field fields ih => rw [prettyFields, ih, List.map_cons]

section Block

variable {α : Type} {R : List Char → α → Prop}

theorem isSpace_indent (level : Nat) : IsSpace (indent level).toList := by
  intro c hc
  rw [indent, String.toList_ofList] at hc
  rw [List.eq_of_mem_replicate hc]
  rfl

/-- Line breaks and indentation belong to the commas. -/
theorem exists_items_intercalate (level : Nat) {s : String} {items : List String} {a : α}
    {as : List α} (hs : R s.toList a) (h : List.Forall₂ (fun s a => R s.toList a) items as) :
    ∃ u, Items R u (a :: as) ∧
      (",\n".intercalate ((s :: items).map (indent level ++ ·))).toList =
        (indent level).toList ++ u := by
  induction h generalizing s a with
  | nil => exact ⟨_, .one hs, by simp⟩
  | @cons next b items as hnext _ ih =>
      obtain ⟨u, hu, htext⟩ := ih hnext
      have hseparator : IsStructural ',' (',' :: '\n' :: (indent level).toList) :=
        ⟨[], _, rfl, isSpace_nil, List.forall_mem_cons.2 ⟨rfl, isSpace_indent level⟩⟩
      refine ⟨_, .more hs hseparator hu, ?_⟩
      rw [List.map_cons, List.map_cons, String.intercalate_cons_cons, String.toList_append,
        ← List.map_cons, htext]
      simp

theorem bracketed_block {opening closing : String} {first last : Char}
    (hopening : opening.toList = [first]) (hclosing : closing.toList = [last]) (level : Nat)
    {items : List String} {as : List α} (h : List.Forall₂ (fun s a => R s.toList a) items as) :
    Bracketed first last R (block opening closing level items).toList as := by
  cases h with
  | nil =>
      have hempty : (block opening closing level []).toList = [first] ++ [last] := by
        simp [block, hopening, hclosing]
      rw [hempty]
      exact .empty ⟨[], [], rfl, isSpace_nil, isSpace_nil⟩ ⟨[], [], rfl, isSpace_nil, isSpace_nil⟩
  | @cons s a items as hs h =>
      obtain ⟨u, hu, htext⟩ := exists_items_intercalate (level + 1) hs h
      have hblock : (block opening closing level (s :: items)).toList =
          (first :: '\n' :: (indent (level + 1)).toList) ++
            (u ++ ('\n' :: (indent level).toList ++ [last])) := by
        simp only [block, List.isEmpty_cons, Bool.false_eq_true, if_false, String.toList_append, htext,
          hopening, hclosing]
        simp
      rw [hblock]
      refine .items ⟨[], _, rfl, isSpace_nil, ?_⟩ hu ⟨_, [], rfl, ?_, isSpace_nil⟩
      · exact List.forall_mem_cons.2 ⟨rfl, isSpace_indent _⟩
      · exact List.forall_mem_cons.2 ⟨rfl, isSpace_indent _⟩

end Block

theorem isValue_prettyAt (level : Nat) {d : Document} (h : d.Exact) :
    IsValue (d.prettyAt level).toList d.value := by
  induction d using inductionOn generalizing level with
  | number n =>
      have hnumber := IsValue.number (isNumber_toDigits n)
      rw [numberValue, readsLiterals.digits h] at hnumber
      rwa [prettyAt, value, Nat.toString_eq_repr, Nat.toList_repr]
  | string s =>
      have hstring := IsValue.string (isString_quote s)
      rw [stringValue, string?_quote, Option.map_some, String.ofList_toList] at hstring
      rwa [prettyAt, value]
  | array items ih =>
      rw [Exact, exactItems_iff] at h
      rw [prettyAt, value, prettyItems_eq, values_eq]
      refine .array (bracketed_block rfl rfl level ?_)
      rw [List.forall₂_map_left_iff, List.forall₂_map_right_iff, List.forall₂_same]
      exact fun d hd => ih d hd (level + 1) (h d hd)
  | object fields ih =>
      rw [Exact, exactFields_iff] at h
      have hmembers : List.Forall₂ (fun (s : String) member => IsMember s.toList member)
          (prettyFields (level + 1) fields)
          (fields.map fun field => ((quote field.1).toList, field.2.value)) := by
        rw [prettyFields_eq, List.forall₂_map_left_iff, List.forall₂_map_right_iff, List.forall₂_same]
        intro field hfield
        have hseparator : IsStructural ':' [':', ' '] :=
          ⟨[], [' '], rfl, isSpace_nil, by simp [IsSpace, isBlank]⟩
        have hpair := IsMember.pair (isString_quote field.1) hseparator
          (ih field hfield (level + 1) (h field hfield))
        simpa using hpair
      have hobject : IsValue ((object fields).prettyAt level).toList _ :=
        .object (bracketed_block rfl rfl level hmembers)
      have hfields : objectValue (fields.map fun field => ((quote field.1).toList, field.2.value)) =
          (object fields).value := by
        rw [objectValue, value, fieldValues_eq, List.filterMap_map]
        congr 1
        rw [← List.filterMap_eq_map]
        congr 1
        funext field
        simp [memberField?, string?_quote]
      rwa [hfields] at hobject

theorem isNested_prettyAt (level : Nat) (d : Document) :
    IsNested d.depth (d.prettyAt level).toList := by
  induction d using inductionOn generalizing level with
  | number n =>
      rw [prettyAt, Nat.toString_eq_repr, Nat.toList_repr]
      exact isNested_plain (isPlain_of_isNumber (isNumber_toDigits n))
  | string s =>
      rw [prettyAt]
      exact isNested_string (isString_quote s)
  | array items ih =>
      have hitems : List.Forall₂ (fun (s : String) (d : Document) => IsNested d.depth s.toList)
          (prettyItems (level + 1) items) items := by
        rw [prettyItems_eq, List.forall₂_map_left_iff, List.forall₂_same]
        exact fun d hd => ih d hd (level + 1)
      rw [prettyAt, depth, itemDepths_eq]
      exact (bracketed_block rfl rfl level hitems).isNested (.inl rfl) (.inl rfl)
  | object fields ih =>
      have hfields : List.Forall₂
          (fun (s : String) (field : String × Document) => IsNested field.2.depth s.toList)
          (prettyFields (level + 1) fields) fields := by
        rw [prettyFields_eq, List.forall₂_map_left_iff, List.forall₂_same]
        intro field hfield
        have hseparator : IsStructural ':' [':', ' '] :=
          ⟨[], [' '], rfl, isSpace_nil, by simp [IsSpace, isBlank]⟩
        have hmember := isNested_member (isString_quote field.1) hseparator
          (ih field hfield (level + 1))
        simpa using hmember
      rw [prettyAt, depth, fieldDepths_eq]
      exact (bracketed_block rfl rfl level hfields).isNested (.inr rfl) (.inr rfl)

end Document

/-- A printed document is read as the value of the document, unless it is nested too deep. -/
theorem parse_pretty {d : Document} (h : d.Exact) :
    (∃ error, parse d.pretty = .error error ∧ error.kind = .depthLimit) ∨
      parse d.pretty = .ok d.value :=
  (parse_eq_ok_iff d.pretty).imp_right fun hiff =>
    (hiff d.value).2 ⟨[], _, [], (List.append_nil _).symm, isSpace_nil, isSpace_nil,
      d.isValue_prettyAt 0 h⟩

theorem parse_pretty_of_depth {d : Document} (h : d.Exact) (hdepth : d.depth ≤ 50) :
    parse d.pretty = .ok d.value := by
  rcases parse_pretty h with ⟨error, herror, hkind⟩ | hok
  · have hnesting := lt_nesting_of_depthLimit herror hkind
    rw [Document.pretty, (d.isNested_prettyAt 0).nesting_eq] at hnesting
    exact absurd hdepth (Nat.not_le.2 hnesting)
  · exact hok

end Peg.Json
