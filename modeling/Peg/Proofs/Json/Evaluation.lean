import Peg.Proofs.Json.Nesting
import Peg.Proofs.Parse.Meaning
import Peg.Proofs.Semantics.Lexemes
import Peg.Proofs.Value

/-!
# Evaluation of JSON

The rules of JSON read the texts of the standard grammar, without the white space around them, to the
values that their structure gives, and derive no others. Arrays and objects are read by one argument,
for brackets around any kind of items. Main statement: `parse_spec`.
-/

namespace Peg.Json

open Library (reads_space reads_literal refuses_literal reads_reference reads_labelled readsAll_cons
  readsAll_last readsNamed_of_reads forall_mem_none forall_mem_some)

/-! ## Members -/

theorem isLocal_string : string.IsLocal := fun m m' htext _ => by rw [string, string, htext]

theorem isLocal_number : number.IsLocal := fun m m' htext _ => by rw [number, number, htext]

theorem isLocal_bool : bool.IsLocal := fun m m' htext _ => by rw [bool, bool, htext]

theorem isLocal_object : object.IsLocal := fun m m' _ hchildren => by
  simp only [object, Match.namedMatches, hchildren]

theorem isLocal_namedMatches : Member.namedMatches.IsLocal := fun m m' _ hchildren => by
  simp only [Member.namedMatches, Match.namedMatches, hchildren]

/-! ## The grammar -/

theorem added : Library.add {} draft = .ok library := Library.add_eq_ok_of_isSome (by decide +kernel)

theorem defines (i : Nat) {name : String} {e : Expr} (h : draft.definitions[i]? = some (name, e)) :
    library.Defines 0 name e :=
  Library.implements_of_single rfl added (List.mem_of_getElem? h)

inductive Kind where
  | object
  | array
  | string
  | number
  | bool
  | null
deriving DecidableEq

namespace Kind

def rule : Kind → String
  | object => "object"
  | array => "array"
  | string => "string"
  | number => "number"
  | bool => "bool"
  | null => "null"

def ofChar? (c : Char) : Option Kind :=
  if c.isDigit || c = '-' then some number
  else if c = '\x7b' then some object
  else if c = '[' then some array
  else if c = '"' then some string
  else if c = 't' || c = 'f' then some bool
  else if c = 'n' then some null
  else none

theorem ofChar?_number {c : Char} (h : c.isDigit = true ∨ c = '-') : ofChar? c = some number := by
  rw [ofChar?, if_pos]
  simpa using h

theorem not_isBlank {k : Kind} {c : Char} (h : ofChar? c = some k) : isBlank c = false := by
  rw [← Bool.not_eq_true]
  intro hblank
  simp only [isBlank, Bool.or_eq_true, decide_eq_true_eq] at hblank
  rcases hblank with ((rfl | rfl) | rfl) | rfl <;> cases h

end Kind

/-- The text begins like the values of a kind. -/
def Begins (k : Kind) (text : List Char) : Prop := text.head?.bind Kind.ofChar? = some k

theorem defines_value : library.Defines 0 "value" (.choice
    ([Kind.object, .array, .string, .number, .bool, .null].map fun k => .ref k.rule)) :=
  defines 1 rfl

def following (item : String) : Expr := .seq [space, .literal ",", space, .ref item]

def someOf (item : String) : Expr := .seq [.ref item, .zeroOrMore (following item)]

/-! ## Refusing -/

section Refuses

variable {owner item : String} {text rest : List Char}

theorem refuses_literal_of_kind {literal : String} {c : Char} {cs : List Char} {k : Kind}
    (hliteral : literal.toList = c :: cs) (hc : Kind.ofChar? c = some k) (h : ¬ Begins k text) :
    library.Refuses 0 owner (.literal literal) text := by
  refine refuses_literal hliteral fun hhead => h ?_
  rw [Begins, hhead, Option.bind_some, hc]

theorem refuses_kind {k : Kind} (h : ¬ Begins k text) : library.RefusesNamed 0 k.rule text := by
  cases k with
  | object =>
      refine Library.refusesNamed_of_refuses (defines 2 rfl) (Library.refuses_extended
        (Library.refuses_seq (Library.refusesAll_head (refuses_literal_of_kind rfl rfl h))))
  | array =>
      refine Library.refusesNamed_of_refuses (defines 4 rfl) (Library.refuses_extended
        (Library.refuses_seq (Library.refusesAll_head (refuses_literal_of_kind rfl rfl h))))
  | string =>
      refine Library.refusesNamed_of_refuses (defines 5 rfl)
        (Library.refuses_extended (Library.refuses_pattern fun p hp => ?_))
      rw [automaton_string hp]
      apply findEnd_string_eq_none
      rintro c hc rfl
      exact h (by rw [Begins, hc]; rfl)
  | number =>
      refine Library.refusesNamed_of_refuses (defines 6 rfl)
        (Library.refuses_extended (Library.refuses_pattern fun p hp => ?_))
      rw [automaton_number hp]
      apply findEnd_number_eq_none
      intro c hc hnumber
      exact h (by rw [Begins, hc, Option.bind_some, Kind.ofChar?_number hnumber])
  | bool =>
      refine Library.refusesNamed_of_refuses (defines 7 rfl)
        (Library.refuses_extended (Library.refuses_choice ?_))
      exact Library.refusesEach_cons (refuses_literal_of_kind rfl rfl h)
        (Library.refusesEach_cons (refuses_literal_of_kind rfl rfl h) Library.refusesEach_nil)
  | null =>
      exact Library.refusesNamed_of_refuses (defines 8 rfl)
        (Library.refuses_extended (refuses_literal_of_kind rfl rfl h))

theorem refuses_value (h : ∀ k, ¬ Begins k text) : library.RefusesNamed 0 "value" text := by
  refine Library.refusesNamed_of_refuses defines_value (Library.refuses_choice ?_)
  have hall (ks : List Kind) :
      library.RefusesEach 0 "value" (ks.map fun k => .ref k.rule) text := by
    induction ks with
    | nil => exact Library.refusesEach_nil
    | cons k ks ih =>
        exact Library.refusesEach_cons (Library.refuses_ref (refuses_kind (h k))) ih
  exact hall _

theorem refuses_pair (h : ¬ Begins .string text) : library.RefusesNamed 0 "pair" text :=
  Library.refusesNamed_of_refuses (defines 3 rfl) (Library.refuses_seq
    (Library.refusesAll_head (Library.refuses_label (Library.refuses_ref (refuses_kind h)))))

end Refuses

/-! ## Reading tokens -/

section Tokens

variable {u rest : List Char}

theorem reads_value {k : Kind} {v : Value} (hbegins : Begins k (u ++ rest))
    (h : library.ReadsNamed 0 k.rule u rest fun m => m.value = v) :
    library.ReadsNamed 0 "value" u rest fun m => m.hasName "value" = true ∧ m.value = v := by
  have hoption (ks : List Kind) (hk : k ∈ ks) :
      library.ReadsFirst 0 "value" (ks.map fun k => .ref k.rule) u rest fun m => m.value = v := by
    induction ks with
    | nil => cases hk
    | cons other ks ih =>
        by_cases heq : k = other
        · subst heq
          refine Library.readsFirst_found (rfl : _ = Extension.ofValue? none) ?_
          exact Library.reads_ref forall_mem_none h fun m m' hwraps hm' => hwraps.value.trans hm'
        · refine Library.readsFirst_next (Library.refuses_ref (refuses_kind fun hother => ?_))
            (ih ((List.mem_cons.1 hk).resolve_left heq))
          exact heq (Option.some.inj (hbegins.symm.trans hother))
  apply readsNamed_of_reads defines_value (rfl : _ = Extension.ofValue? none)
  refine Library.reads_choice forall_mem_none (hoption _ (by cases k <;> decide)) ?_
  intro m m' hwraps hm'
  exact ⟨(hwraps.hasName "value").2 (.inl List.mem_cons_self), hwraps.value.trans hm'⟩

theorem reads_string (hu : IsString u) (rest : List Char) :
    library.ReadsNamed 0 "string" u rest
      fun m => m.hasName "value" = false ∧ m.value = stringValue u := by
  apply readsNamed_of_reads (defines 5 rfl) (rfl : _ = Extension.ofValue? (some string))
  refine Library.reads_extended (Library.reads_pattern (forall_mem_some isLocal_string) ?_ ?_)
  · intro p hp
    rw [automaton_string hp]
    exact findEnd_string hu rest
  · intro m hm
    constructor
    · rw [← Bool.not_eq_true, hm.hasName]
      decide
    · rw [hm.value, Option.elim_some, string, hm.text, String.toList_ofList, stringValue]

theorem reads_number (hu : IsNumber u) (hrest : EndsNumber rest) :
    library.ReadsNamed 0 "number" u rest fun m => m.value = numberValue u := by
  apply readsNamed_of_reads (defines 6 rfl) (rfl : _ = Extension.ofValue? (some number))
  refine Library.reads_extended (Library.reads_pattern (forall_mem_some isLocal_number) ?_ ?_)
  · intro p hp
    rw [automaton_number hp]
    exact findEnd_number hu hrest
  · intro m hm
    rw [hm.value, Option.elim_some, number, hm.text, String.toList_ofList, numberValue]

theorem reads_null : library.ReadsNamed 0 "null" "null".toList rest fun m => m.value = .null := by
  apply readsNamed_of_reads (defines 8 rfl)
    (rfl : _ = Extension.ofValue? (some (Member.const .null)))
  refine Library.reads_extended (Library.reads_text (forall_mem_some fun _ _ _ _ => rfl) ?_)
  intro m hm
  rw [hm.value, Option.elim_some, Member.const]

theorem reads_bool (b : Bool) :
    library.ReadsNamed 0 "bool" (if b then "true" else "false").toList rest
      fun m => m.value = .bool b := by
  have hliteral (literal : String) : library.Reads 0 "bool" (.literal literal) none none
      literal.toList rest fun m => m.text = literal := by
    refine Library.reads_text forall_mem_none fun m hm => ?_
    rw [hm.text, String.ofList_toList]
  have hoption : library.ReadsFirst 0 "bool" [.literal "true", .literal "false"]
      (if b then "true" else "false").toList rest fun m => m.text = if b then "true" else "false" := by
    cases b with
    | true => exact Library.readsFirst_found rfl (hliteral "true")
    | false =>
        refine Library.readsFirst_next (refuses_literal (rfl : "true".toList = ['t', 'r', 'u', 'e']) ?_)
          (Library.readsFirst_found rfl (hliteral "false"))
        show some 'f' ≠ some 't'
        decide
  apply readsNamed_of_reads (defines 7 rfl) (rfl : _ = Extension.ofValue? (some bool))
  refine Library.reads_extended (Library.reads_choice (forall_mem_some isLocal_bool) hoption ?_)
  intro m m' hwraps hm'
  rw [hwraps.value, Option.elim_some, bool, hwraps.text, hm']
  cases b <;> rfl

end Tokens

/-! ## Reading items -/

/-- References to the rule read the text, which does not begin with a blank. -/
structure Reading (item : String) (P : Match → Prop) (u : List Char) : Prop where
  filled : ∀ rest, StartsFilled (u ++ rest)
  reads : ∀ owner rest, EndsNumber rest → library.Reads 0 owner (.ref item) none none u rest
    fun m => m.hasName item = true ∧ P m

theorem Reading.ne_nil {item : String} {P : Match → Prop} {u : List Char} (h : Reading item P u) :
    u ≠ [] := by
  rintro rfl
  cases startsFilled_cons_iff.1 (h.filled [' '])

/-- References to the rule read the text without the white space around it. -/
def Holds (item : String) (P : Match → Prop) (u : List Char) : Prop :=
  ∃ before core after, u = before ++ (core ++ after) ∧ IsSpace before ∧ IsSpace after ∧
    Reading item P core

/-- The text goes on with the bracket that ends a list. -/
def ClosesList (rest : List Char) : Prop :=
  ∃ u c back, rest = u ++ c :: back ∧ IsSpace u ∧ (c = ']' ∨ c = '\x7d')

namespace ClosesList

variable {u rest : List Char}

theorem endsNumber (h : ClosesList rest) : EndsNumber rest := by
  obtain ⟨u, c, back, rfl, hu, hc⟩ := h
  apply endsNumber_append hu
  rw [endsNumber_cons_iff]
  rcases hc with rfl | rfl <;> decide

theorem refuses_following (h : ClosesList rest) (owner item : String) :
    library.Refuses 0 owner (following item) rest := by
  obtain ⟨u, c, back, rfl, hu, hc⟩ := h
  have hfilled : StartsFilled (c :: back) := by
    rw [startsFilled_cons_iff]
    rcases hc with rfl | rfl <;> rfl
  refine Library.refuses_seq (Library.refusesAll_tail rfl (reads_space hu hfilled)
    (Library.refusesAll_head (refuses_literal (rfl : ",".toList = [',']) ?_)))
  rw [List.head?_cons, ne_eq, Option.some.injEq]
  rcases hc with rfl | rfl <;> decide

end ClosesList

section Items

variable {α : Type} {item : String} {M : α → Match → Prop} {u v w : List Char} {a : α} {as : List α}

/-- Further items of a list that have been read. -/
structure Rounds (item : String) (M : α → Match → Prop) (u : List Char) (as : List α) : Prop where
  ends : ∀ rest, EndsNumber rest → EndsNumber (u ++ rest)
  reads : ∀ owner rest count, ClosesList rest →
    library.ReadsRounds 0 owner (following item) 0 none count u rest
      fun ms => List.Forall₂ M as (Match.namedFromAll ms)

theorem Rounds.nil : Rounds item M [] [] where
  ends _ h := h
  reads owner _ count hrest := by
    refine Library.readsRounds_stop (by simp) (Nat.zero_le count)
      (hrest.refuses_following owner item) ?_
    rw [Match.namedFromAll_nil]
    exact .nil

theorem reads_following {owner : String} {P : Match → Prop} {rest : List Char} (hv : IsSpace v)
    (hw : IsSpace w) (h : Reading item P u) (hrest : EndsNumber rest) :
    library.Reads 0 owner (following item) none none (v ++ (',' :: (w ++ u))) rest
      fun m => ∃ m', m.namedFrom = [m'] ∧ P m' := by
  have hitem : library.ReadsAll 0 owner [.ref item] u rest _ :=
    readsAll_last rfl (h.reads owner rest hrest)
  have hafter : library.ReadsAll 0 owner (space :: _) (w ++ u) rest _ :=
    readsAll_cons rfl (reads_space hw (h.filled rest)) hitem
  have hcomma : library.ReadsAll 0 owner (.literal "," :: _) ([','] ++ (w ++ u)) rest _ :=
    readsAll_cons rfl reads_literal hafter
  have hbefore : library.ReadsAll 0 owner (space :: _) (v ++ ([','] ++ (w ++ u))) rest _ :=
    readsAll_cons rfl (reads_space hv (startsFilled_cons_iff.2 rfl)) hcomma
  refine Library.reads_seq forall_mem_none hbefore ?_
  rintro m _ hm ⟨m₁, _, rfl, h₁, m₂, _, rfl, h₂, m₃, _, rfl, h₃, m₄, rfl, hname, hP⟩
  refine ⟨m₄, ?_, hP⟩
  simp only [hm.namedFrom, Match.namedFromAll_cons, Match.namedFromAll_nil, h₁.namedFrom,
    h₂.namedFrom, h₃.namedFrom, Match.namedFrom_of_hasName hname, List.nil_append, List.append_nil]

theorem Rounds.cons {rounds : List Char} (hv : IsSpace v) (hw : IsSpace w)
    (h : Reading item (M a) u) (hrounds : Rounds item M rounds as) :
    Rounds item M ((v ++ (',' :: (w ++ u))) ++ rounds) (a :: as) where
  ends rest _ := by
    rw [List.append_assoc, List.append_assoc]
    refine endsNumber_append hv ?_
    rw [List.cons_append, endsNumber_cons_iff]
    decide
  reads owner rest count hrest := by
    have hround : library.Reads 0 owner (following item) none none _ _ _ :=
      reads_following hv hw h (hrounds.ends rest hrest.endsNumber)
    refine Library.readsRounds_more (by simp) rfl (by simp) hround
      (hrounds.reads owner rest (count + 1) hrest) ?_
    rintro m ms ⟨m', hm, hM⟩ hms
    rw [Match.namedFromAll_cons, hm]
    exact .cons hM hms

theorem exists_rounds (h : Items (fun u a => Holds item (M a) u) u as) :
    ∃ before first rounds after a tail, u = before ++ (first ++ (rounds ++ after)) ∧
      as = a :: tail ∧ IsSpace before ∧ IsSpace after ∧ Reading item (M a) first ∧
      Rounds item M rounds tail := by
  induction h with
  | @one u a hu =>
      obtain ⟨before, core, after, rfl, hbefore, hafter, hcore⟩ := hu
      exact ⟨before, core, [], after, a, [], rfl, rfl, hbefore, hafter, hcore, .nil⟩
  | @more u separator rest a as hu hseparator _ ih =>
      obtain ⟨before, core, after, rfl, hbefore, hafter, hcore⟩ := hu
      obtain ⟨v, w, rfl, hv, hw⟩ := hseparator
      obtain ⟨before', first, rounds, after', a', tail, rfl, rfl, hbefore', hafter', hfirst,
        hrounds⟩ := ih
      -- white space between two items may belong to either of them or to the comma
      refine ⟨before, core, ((after ++ v) ++ (',' :: ((w ++ before') ++ first))) ++ rounds, after', a,
        a' :: tail, ?_, rfl, hbefore, hafter', hcore, ?_⟩
      · simp only [List.append_assoc, List.cons_append]
      · exact .cons (isSpace_append_iff.2 ⟨hafter, hv⟩) (isSpace_append_iff.2 ⟨hw, hbefore'⟩) hfirst
          hrounds

theorem reads_someOf {owner : String} {rounds rest : List Char} (h : Reading item (M a) u)
    (hrounds : Rounds item M rounds as) (hrest : ClosesList rest) :
    library.Reads 0 owner (someOf item) none none (u ++ rounds) rest
      fun m => List.Forall₂ M (a :: as) m.namedFrom := by
  have hfollowing : library.ReadsAll 0 owner [.zeroOrMore (following item)] rounds rest _ :=
    readsAll_last rfl (Library.reads_rep forall_mem_none (hrounds.reads owner rest 0 hrest)
      fun m ms hm hms => (hm.namedFrom ▸ hms : List.Forall₂ M as m.namedFrom))
  have hall : library.ReadsAll 0 owner (.ref item :: _) (u ++ rounds) rest _ :=
    readsAll_cons rfl (h.reads owner (rounds ++ rest) (hrounds.ends rest hrest.endsNumber)) hfollowing
  refine Library.reads_seq forall_mem_none hall ?_
  rintro m _ hm ⟨m₁, _, rfl, ⟨hname, h₁⟩, m₂, rfl, h₂⟩
  rw [hm.namedFrom, Match.namedFromAll_cons, Match.namedFrom_of_hasName hname,
    Match.namedFromAll_cons, Match.namedFromAll_nil, List.append_nil]
  exact .cons h₁ h₂

theorem reads_listOf {owner opening closing : String} {name : Option String} {f : Member}
    {value : Value} {inside rest : List Char} (hv : IsSpace v) (hw : IsSpace w)
    (hclosing : StartsFilled (closing.toList ++ rest))
    (hfilled : StartsFilled (inside ++ ((w ++ closing.toList) ++ rest)))
    (hinside : library.ReadsRounds 0 owner (someOf item) 0 (some 1) 0 inside
      ((w ++ closing.toList) ++ rest) fun ms => List.Forall₂ M as (Match.namedFromAll ms))
    (hlocal : f.IsLocal) (hvalue : ∀ m, List.Forall₂ M as m.namedMatches → f m = value) :
    library.Reads 0 owner (listOf opening item closing) name (some f)
      (opening.toList ++ (v ++ (inside ++ (w ++ closing.toList)))) rest fun m => m.value = value := by
  have hclose : library.ReadsAll 0 owner [.literal closing] closing.toList rest _ :=
    readsAll_last rfl reads_literal
  have hafter : library.ReadsAll 0 owner (space :: _) (w ++ closing.toList) rest _ :=
    readsAll_cons rfl (reads_space hw hclosing) hclose
  have hitems : library.ReadsAll 0 owner (.opt (someOf item) :: _) (inside ++ _) rest _ :=
    readsAll_cons rfl (Library.reads_rep forall_mem_none hinside
      fun m ms hm hms => (hm.namedFrom ▸ hms : List.Forall₂ M as m.namedFrom)) hafter
  have hbefore : library.ReadsAll 0 owner (space :: _) (v ++ _) rest _ :=
    readsAll_cons rfl (reads_space hv (by rwa [List.append_assoc])) hitems
  have hopen : library.ReadsAll 0 owner (.literal opening :: _) (opening.toList ++ _) rest _ :=
    readsAll_cons rfl reads_literal hbefore
  refine Library.reads_seq (forall_mem_some hlocal) hopen ?_
  rintro m _ hm ⟨m₁, _, rfl, h₁, m₂, _, rfl, h₂, m₃, _, rfl, h₃, m₄, _, rfl, h₄, m₅, rfl, h₅⟩
  rw [hm.value]
  apply hvalue
  simpa only [Match.namedMatches, hm.children, Match.namedFromAll_cons, Match.namedFromAll_nil,
    h₁.namedFrom, h₂.namedFrom, h₄.namedFrom, h₅.namedFrom, List.nil_append, List.append_nil] using h₃

end Items

/-! ## Reading values -/

section Values

variable {k : Kind} {v : Value} {u rest : List Char}

theorem startsFilled_of_begins (h : Begins k u) : StartsFilled u := by
  intro c hc
  rw [Begins, Option.mem_def.1 hc] at h
  exact Kind.not_isBlank h

theorem begins_append {k : Kind} {u rest : List Char} (h : Begins k u) : Begins k (u ++ rest) := by
  cases u with
  | nil => cases h
  | cons c u => exact h

theorem Reading.holds {item : String} {P : Match → Prop} (h : Reading item P u) : Holds item P u :=
  ⟨[], u, [], (List.append_nil u).symm, isSpace_nil, isSpace_nil, h⟩

theorem Reading.of_kind (hbegins : Begins k u)
    (h : ∀ rest, EndsNumber rest → library.ReadsNamed 0 k.rule u rest fun m => m.value = v) :
    Reading "value" (fun m => m.value = v) u where
  filled rest := startsFilled_of_begins (begins_append hbegins)
  reads owner rest hrest := by
    refine Library.reads_ref forall_mem_none (reads_value (begins_append hbegins) (h rest hrest)) ?_
    intro m m' hwraps hm'
    exact ⟨hwraps.hasName_inner hm'.1, hwraps.value.trans hm'.2⟩

theorem map_value_eq {values : List Value} {ms : List Match}
    (h : List.Forall₂ (fun v m => m.value = v) values ms) : ms.map Match.value = values := by
  induction h with
  | nil => rfl
  | cons hm _ ih => rw [List.map_cons, hm, ih]

theorem filterMap_field?_eq {members : List (List Char × Value)} {ms : List Match}
    (h : List.Forall₂ (fun member m => field? m = memberField? member) members ms) :
    ms.filterMap field? = members.filterMap memberField? := by
  induction h with
  | nil => rfl
  | cons hm _ ih => rw [List.filterMap_cons, List.filterMap_cons, hm, ih]

section Lists

variable {α : Type} {M : α → Match → Prop} {as : List α} {f : Member} {first last : Char}
  {opening item closing : String}
  (hdefines : library.Defines 0 k.rule ((listOf opening item closing).value f))
  (hopening : opening.toList = [first]) (hclosing : closing.toList = [last])
  (hfirst : Kind.ofChar? first = some k) (hlast : last = ']' ∨ last = '\x7d')
  (hitem : ∀ rest, library.RefusesNamed 0 item (last :: rest)) (hlocal : f.IsLocal)
  (hvalue : ∀ m, List.Forall₂ M as m.namedMatches → f m = v)

include hdefines hopening hclosing hfirst hlast hlocal hvalue

theorem reading_listOf {before after inside : List Char} (hbefore : IsSpace before)
    (hafter : IsSpace after)
    (hfilled : ∀ rest, StartsFilled (inside ++ ((after ++ [last]) ++ rest)))
    (hinside : ∀ rest, library.ReadsRounds 0 k.rule (someOf item) 0 (some 1) 0 inside
      ((after ++ [last]) ++ rest) fun ms => List.Forall₂ M as (Match.namedFromAll ms)) :
    Reading "value" (fun m => m.value = v)
      (first :: (before ++ (inside ++ (after ++ [last])))) := by
  have hbegins : Begins k (first :: (before ++ (inside ++ (after ++ [last])))) := hfirst
  refine Reading.of_kind hbegins fun rest _ => ?_
  apply readsNamed_of_reads hdefines (rfl : _ = Extension.ofValue? (some f))
  have hlist : library.Reads 0 k.rule (listOf opening item closing) (some k.rule) (some f)
      (opening.toList ++ (before ++ (inside ++ (after ++ closing.toList)))) rest
      fun m => m.value = v := by
    refine reads_listOf hbefore hafter ?_ ?_ ?_ hlocal hvalue
    · rw [hclosing, List.cons_append, startsFilled_cons_iff]
      rcases hlast with rfl | rfl <;> rfl
    · rw [hclosing]
      exact hfilled rest
    · rw [hclosing]
      exact hinside rest
  rw [hopening, hclosing] at hlist
  exact Library.reads_extended hlist

include hitem

theorem holds_listOf (h : Bracketed first last (fun u a => Holds item (M a) u) u as) :
    Holds "value" (fun m => m.value = v) u := by
  cases h with
  | empty hopen hclose =>
      obtain ⟨before, w, rfl, hbefore, hw⟩ := hopen
      obtain ⟨w', after, rfl, hw', hafter⟩ := hclose
      have hreading := reading_listOf hdefines hopening hclosing hfirst hlast hlocal hvalue
        (isSpace_append_iff.2 ⟨hw, hw'⟩) isSpace_nil
        (fun rest => startsFilled_cons_iff.2 (by rcases hlast with rfl | rfl <;> rfl))
        (fun rest => Library.readsRounds_stop (by simp) (Nat.le_refl 0)
          (Library.refuses_seq (Library.refusesAll_head (Library.refuses_ref (hitem rest))))
          (by rw [Match.namedFromAll_nil]; exact .nil))
      refine ⟨before, _, after, ?_, hbefore, hafter, hreading⟩
      simp
  | items hopen hitems hclose =>
      obtain ⟨before, w, rfl, hbefore, hw⟩ := hopen
      obtain ⟨w', after, rfl, hw', hafter⟩ := hclose
      obtain ⟨before', first', rounds, after', a, tail, rfl, rfl, hbefore', hafter', hfirst',
        hrounds⟩ := exists_rounds hitems
      have hspace := isSpace_append_iff.2 ⟨hafter', hw'⟩
      have hends (rest : List Char) : ClosesList (((after' ++ w') ++ [last]) ++ rest) :=
        ⟨after' ++ w', last, rest, by rw [List.append_assoc _ [last]]; rfl, hspace, hlast⟩
      have hrest (rest : List Char) : library.ReadsRounds 0 k.rule (someOf item) 0 (some 1) 0
          (first' ++ rounds) (((after' ++ w') ++ [last]) ++ rest)
          fun ms => List.Forall₂ M (a :: tail) (Match.namedFromAll ms) := by
        rw [← List.append_nil (first' ++ rounds)]
        refine Library.readsRounds_more (by simp) rfl
          (List.append_ne_nil_of_left_ne_nil hfirst'.ne_nil _)
          (reads_someOf hfirst' hrounds (hends rest))
          (Library.readsRounds_full rfl (Nat.zero_le 1) rfl) ?_
        rintro m ms hm rfl
        rwa [Match.namedFromAll_cons, Match.namedFromAll_nil, List.append_nil]
      have hreading := reading_listOf hdefines hopening hclosing hfirst hlast hlocal hvalue
        (isSpace_append_iff.2 ⟨hw, hbefore'⟩) hspace
        (fun rest => by rw [List.append_assoc]; exact hfirst'.filled _) hrest
      refine ⟨before, _, after, ?_, hbefore, hafter, hreading⟩
      simp

end Lists

theorem holds_array {values : List Value}
    (h : Bracketed '[' ']' (fun u v => Holds "value" (fun m => m.value = v) u) u values) :
    Holds "value" (fun m => m.value = .array values) u := by
  refine holds_listOf (defines 4 rfl : library.Defines 0 Kind.array.rule _) rfl rfl rfl (.inl rfl)
    (fun rest => refuses_value fun k hk => by cases hk) isLocal_namedMatches ?_ h
  intro m hitems
  rw [Member.namedMatches, map_value_eq hitems]

theorem holds_object {members : List (List Char × Value)}
    (h : Bracketed '\x7b' '\x7d'
      (fun u member => Holds "pair" (fun m => field? m = memberField? member) u) u members) :
    Holds "value" (fun m => m.value = objectValue members) u := by
  refine holds_listOf (defines 2 rfl : library.Defines 0 Kind.object.rule _) rfl rfl rfl (.inr rfl)
    (fun rest => refuses_pair fun hk => by cases hk) isLocal_object ?_ h
  intro m hitems
  rw [object, filterMap_field?_eq hitems, objectValue]

theorem field?_congr {m m' : Match} (h : m.children = m'.children) : field? m = field? m' := by
  simp only [field?, Match.capture, Match.first, h]

theorem field?_eq {m key value : Match} {name : List Char} (hkey : m.capture "key" = some key)
    (hvalue : m.capture "value" = some value) (hname : key.value = stringValue name) :
    field? m = memberField? (name, value.value) := by
  simp only [field?, hkey, hvalue, hname, Option.bind_eq_bind, Option.bind_some, stringValue,
    memberField?]
  cases string? name <;> rfl

theorem reading_pair {name before after : List Char} (hname : IsString name)
    (hbefore : IsSpace before) (hafter : IsSpace after)
    (h : Reading "value" (fun m => m.value = v) u) :
    Reading "pair" (fun m => field? m = memberField? (name, v))
      (name ++ (before ++ (':' :: (after ++ u)))) where
  filled rest := by
    obtain ⟨body, rfl, -⟩ := hname
    exact startsFilled_cons_iff.2 rfl
  reads owner rest hrest := by
    have hvalue : library.ReadsAll 0 "pair" [.ref "value"] u rest _ :=
      readsAll_last rfl (h.reads "pair" rest hrest)
    have hbehind : library.ReadsAll 0 "pair" (space :: _) (after ++ u) rest _ :=
      readsAll_cons rfl (reads_space hafter (h.filled rest)) hvalue
    have hcolon : library.ReadsAll 0 "pair" (.literal ":" :: _) ([':'] ++ (after ++ u)) rest _ :=
      readsAll_cons rfl reads_literal hbehind
    have hspace : library.ReadsAll 0 "pair" (space :: _) (before ++ ([':'] ++ (after ++ u))) rest _ :=
      readsAll_cons rfl (reads_space hbefore (startsFilled_cons_iff.2 rfl)) hcolon
    have hall : library.ReadsAll 0 "pair" (.label (.ref "string") "key" :: _) (name ++ _) rest _ :=
      readsAll_cons rfl (reads_labelled (reads_string hname _)) hspace
    have hpair : library.ReadsNamed 0 "pair" (name ++ (before ++ ([':'] ++ (after ++ u)))) rest
        fun m => m.hasName "pair" = true ∧ field? m = memberField? (name, v) := by
      apply readsNamed_of_reads (defines 3 rfl) (rfl : _ = Extension.ofValue? none)
      refine Library.reads_seq forall_mem_none hall ?_
      rintro m _ hm ⟨m₁, _, rfl, ⟨key, hkey, h₁⟩, m₂, _, rfl, h₂, m₃, _, rfl, h₃, m₄, _, rfl, h₄,
        m₅, rfl, hfifth, h₅⟩
      -- a name is read by the rule of strings, so nothing before the fifth part is found as a value
      have hfirst : m₁.hasName "key" = true := (h₁.hasName "key").2 (.inl List.mem_cons_self)
      have hno : m₁.hasName "value" = false := by
        rw [← Bool.not_eq_true, h₁.hasName, hkey.1]
        decide
      have hcaptureKey : m.capture "key" = some m₁ := by
        apply Match.capture_of_find?
        simp [hm.children, hfirst]
      have hcaptureValue : m.capture "value" = some m₅ := by
        apply Match.capture_of_find?
        simp [hm.children, hno, h₂.hasName "value", h₃.hasName "value", h₄.hasName "value", hfifth]
      refine ⟨(hm.hasName "pair").2 List.mem_cons_self, ?_⟩
      rw [field?_eq hcaptureKey hcaptureValue (h₁.value.trans hkey.2), h₅]
    refine Library.reads_ref forall_mem_none hpair fun m m' hwraps hm' => ?_
    exact ⟨hwraps.hasName_inner hm'.1, (field?_congr hwraps.children).trans hm'.2⟩

theorem holds_pair {name separator : List Char} (hname : IsString name)
    (hseparator : IsStructural ':' separator) (h : Holds "value" (fun m => m.value = v) u) :
    Holds "pair" (fun m => field? m = memberField? (name, v)) (name ++ (separator ++ u)) := by
  obtain ⟨before, after, rfl, hbefore, hafter⟩ := hseparator
  obtain ⟨before', core, after', rfl, hbefore', hafter', hcore⟩ := h
  have hpair := reading_pair hname hbefore (isSpace_append_iff.2 ⟨hafter, hbefore'⟩) hcore
  refine ⟨[], _, after', ?_, isSpace_nil, hafter', hpair⟩
  simp

theorem holds_of_isValue (h : IsValue u v) : Holds "value" (fun m => m.value = v) u := by
  refine IsValue.induct (P := fun u v => Holds "value" (fun m => m.value = v) u)
    (Q := fun u member => Holds "pair" (fun m => field? m = memberField? member) u)
    ?_ (fun b => ?_) (fun hu => ?_) (fun hu => ?_) holds_array holds_object holds_pair h
  · have hbegins : Begins .null "null".toList := rfl
    exact (Reading.of_kind hbegins fun rest _ => reads_null).holds
  · have hbegins : Begins .bool (if b then "true" else "false").toList := by cases b <;> rfl
    exact (Reading.of_kind hbegins fun rest _ => reads_bool b).holds
  · next u =>
      have hbegins : Begins .number u := by
        cases u with
        | nil => exact absurd hu not_isNumber_nil
        | cons c u => exact Kind.ofChar?_number (begins_of_isNumber hu)
      exact (Reading.of_kind hbegins fun rest hrest => reads_number hu hrest).holds
  · next u =>
      have hbegins : Begins .string u := by
        obtain ⟨body, rfl, -⟩ := hu
        rfl
      refine (Reading.of_kind hbegins fun rest _ r hr => ?_).holds
      exact (reads_string hu rest r hr).mono fun m hm => hm.2

theorem reads_text {text : List Char} (h : IsText text v) :
    library.ReadsNamed 0 "json" text [] fun m => m.value = v := by
  obtain ⟨before, u, after, rfl, hbefore, hafter, hu⟩ := h
  obtain ⟨before', core, after', rfl, hbefore', hafter', hcore⟩ := holds_of_isValue hu
  have hsplit : before ++ ((before' ++ (core ++ after')) ++ after) =
      (before ++ before') ++ (core ++ (after' ++ after)) := by simp
  have hends : EndsNumber ((after' ++ after) ++ []) :=
    endsNumber_append (isSpace_append_iff.2 ⟨hafter', hafter⟩) endsNumber_nil
  have hbehind : library.ReadsAll 0 "json" [space] (after' ++ after) [] _ :=
    readsAll_last rfl (reads_space (isSpace_append_iff.2 ⟨hafter', hafter⟩) startsFilled_nil)
  have hvalue : library.ReadsAll 0 "json" (.ref "value" :: _) (core ++ _) [] _ :=
    readsAll_cons rfl (hcore.reads "json" _ hends) hbehind
  have hall : library.ReadsAll 0 "json" (space :: _) ((before ++ before') ++ _) [] _ :=
    readsAll_cons rfl (reads_space (isSpace_append_iff.2 ⟨hbefore, hbefore'⟩)
      (by rw [List.append_assoc]; exact hcore.filled _)) hvalue
  rw [hsplit]
  apply readsNamed_of_reads (defines 0 rfl)
    (rfl : _ = Extension.ofValue? (some (Member.capture "value")))
  refine Library.reads_extended
    (Library.reads_seq (forall_mem_some (Member.isLocal_capture "value")) hall ?_)
  rintro m _ hm ⟨m₁, _, rfl, h₁, m₂, _, rfl, ⟨hname, h₂⟩, -⟩
  have hfound : m.children.find? (·.hasName "value") = some m₂ := by
    simp [hm.children, h₁.hasName "value", hname]
  rw [hm.value, Option.elim_some, Member.capture_of_find? hfound, h₂]

end Values

/-! ## Deriving texts -/

/-- The texts that the rule of a name may take up. -/
def language : String → List Char → Prop
  | "json", u => ∃ v, IsText u v
  | "value", u => ∃ v, IsValue u v
  | "object", u => ∃ members, Bracketed '\x7b' '\x7d' IsMember u members
  | "pair", u => ∃ member, IsMember u member
  | "array", u => ∃ values, Bracketed '[' ']' IsValue u values
  | "string", u => IsString u
  | "number", u => IsNumber u
  | "bool", u => u = "true".toList ∨ u = "false".toList
  | "null", u => u = "null".toList
  | _, _ => False

section Lists

variable {α : Type} {R : List Char → α → Prop} {item : String} {u : List Char}
  (hitem : ∀ u, language item u → ∃ a, R u a)

include hitem

theorem exists_items {us : List (List Char)} {a : α} (hu : R u a)
    (h : ∀ u ∈ us, (following item).Generates language u) :
    ∃ as, Items R (u ++ us.flatten) as := by
  induction us generalizing u a with
  | nil =>
      rw [List.flatten_nil, List.append_nil]
      exact ⟨[a], .one hu⟩
  | cons round us ih =>
      obtain ⟨hround, hrounds⟩ := List.forall_mem_cons.1 h
      obtain ⟨before, _, rfl, hbefore, comma, _, rfl, hcomma, after, _, rfl, hafter, next, _, rfl,
        hnext, rfl⟩ := hround
      obtain ⟨b, hb⟩ := hitem next hnext
      obtain ⟨as, has⟩ := ih hb hrounds
      refine ⟨a :: as, ?_⟩
      have hseparator : IsStructural ',' (before ++ (',' :: after)) :=
        ⟨before, after, rfl, Library.isSpace_of_generates hbefore, Library.isSpace_of_generates hafter⟩
      have hsplit : u ++ ((before ++ (comma ++ (after ++ (next ++ [])))) :: us).flatten =
          u ++ ((before ++ (',' :: after)) ++ (next ++ us.flatten)) := by
        rw [Library.eq_of_generates_literal hcomma]
        simp
      rw [hsplit]
      exact .more hu hseparator has

theorem exists_bracketed {opening closing : String} {first last : Char}
    (hopening : opening.toList = [first]) (hclosing : closing.toList = [last])
    (h : (listOf opening item closing).Generates language u) :
    ∃ as, Bracketed first last R u as := by
  obtain ⟨_, _, rfl, hopen, before, _, rfl, hbefore, _, _, rfl, ⟨us, rfl, hus, hmost, -⟩, after, _,
    rfl, hafter, _, _, rfl, hclose, rfl⟩ := h
  rw [Library.eq_of_generates_literal hopen, Library.eq_of_generates_literal hclose, hopening,
    hclosing]
  have hfirst : IsStructural first ([first] ++ before) :=
    ⟨[], before, rfl, isSpace_nil, Library.isSpace_of_generates hbefore⟩
  have hlast : IsStructural last (after ++ [last]) :=
    ⟨after, [], rfl, Library.isSpace_of_generates hafter, isSpace_nil⟩
  cases us with
  | nil =>
      refine ⟨[], ?_⟩
      rw [List.flatten_nil, List.nil_append, List.append_nil, ← List.append_assoc]
      exact .empty hfirst hlast
  | cons items more =>
      have hmore : more = [] := by
        have hlength : (items :: more).length ≤ 1 := hmost 1 rfl
        rw [List.length_cons] at hlength
        exact List.length_eq_zero_iff.1 (by omega)
      subst hmore
      obtain ⟨u, _, rfl, hu, _, _, rfl, ⟨rounds, rfl, hrounds, -, -⟩, rfl⟩ :=
        hus items List.mem_cons_self
      obtain ⟨a, ha⟩ := hitem u hu
      obtain ⟨as, has⟩ := exists_items hitem ha hrounds
      refine ⟨as, ?_⟩
      rw [List.flatten_cons, List.flatten_nil, List.append_nil, List.append_nil, List.append_nil,
        ← List.append_assoc]
      exact .items hfirst has hlast

end Lists

theorem language_of_generates : ∀ definition ∈ draft.definitions, ∀ u,
    definition.2.Generates language u → language definition.1 u := by
  simp only [draft, List.forall_mem_cons]
  refine ⟨fun u h => ?_, fun u h => ?_, fun u h => ?_, fun u h => ?_, fun u h => ?_, fun u h => ?_,
    fun u h => ?_, fun u h => ?_, fun u h => ?_, List.forall_mem_nil _⟩
  · obtain ⟨before, _, rfl, hbefore, u, _, rfl, ⟨v, hu⟩, after, _, rfl, hafter, rfl⟩ := h
    refine ⟨v, before, u, after, ?_, Library.isSpace_of_generates hbefore,
      Library.isSpace_of_generates hafter, hu⟩
    rw [List.append_nil]
  · rcases h with ⟨members, h⟩ | ⟨values, h⟩ | h | h | h | h | h
    · exact ⟨_, .object h⟩
    · exact ⟨_, .array h⟩
    · exact ⟨_, .string h⟩
    · exact ⟨_, .number h⟩
    · rcases h with rfl | rfl
      · exact ⟨_, .bool true⟩
      · exact ⟨_, .bool false⟩
    · cases h
      exact ⟨_, .null⟩
    · cases h
  · have hpair (u : List Char) (hu : language "pair" u) : ∃ member, IsMember u member := hu
    exact exists_bracketed hpair rfl rfl h
  · obtain ⟨name, _, rfl, hname, before, _, rfl, hbefore, _, _, rfl, hcolon, after, _, rfl, hafter,
      u, _, rfl, ⟨v, hu⟩, rfl⟩ := h
    have hseparator : IsStructural ':' (before ++ (':' :: after)) :=
      ⟨before, after, rfl, Library.isSpace_of_generates hbefore, Library.isSpace_of_generates hafter⟩
    refine ⟨(name, v), ?_⟩
    have hmember := IsMember.pair hname hseparator hu
    rw [Library.eq_of_generates_literal hcolon]
    simpa using hmember
  · have hvalue (u : List Char) (hu : language "value" u) : ∃ v, IsValue u v := hu
    exact exists_bracketed hvalue rfl rfl h
  · obtain ⟨p, rest, hp, hend⟩ := h
    rw [automaton_string hp] at hend
    exact isString_of_findEnd hend
  · obtain ⟨p, rest, hp, hend⟩ := h
    rw [automaton_number hp] at hend
    exact isNumber_of_findEnd hend
  · rcases h with h | h | h
    · exact .inl (Library.eq_of_generates_literal h)
    · exact .inr (Library.eq_of_generates_literal h)
    · cases h
  · have hnull : (Expr.literal "null").Generates language u := h
    exact Library.eq_of_generates_literal hnull

/-! ## Nesting of executions -/

/-- How deep executions nest for a name, by the nesting of the text that is left. -/
def height : String → List Char → Nat
  | "json", t => 6 + 10 * nesting t
  | "value", t => 4 + 10 * nesting t
  | "object", t => 2 + 10 * nesting t
  | "pair", t => 6 + 10 * nesting t
  | "array", t => 2 + 10 * nesting t
  | "bool", _ => 2
  | _, _ => 1

section Lists

variable {opening item closing : String} {t u : List Char} {k h : Nat}
  (hitem : ∀ u, language item u → KeepsNesting u)

include hitem

theorem keepsNesting_following (hu : (following item).Generates language u) : KeepsNesting u := by
  obtain ⟨before, _, rfl, hbefore, comma, _, rfl, hcomma, after, _, rfl, hafter, next, _, rfl, hnext,
    rfl⟩ := hu
  obtain rfl : comma = ",".toList := Library.eq_of_generates_literal hcomma
  have hbehind := (isNested_space (Library.isSpace_of_generates hafter)).keepsNesting.append
    ((hitem next hnext).append isNested_nil.keepsNesting)
  exact (isNested_space (Library.isSpace_of_generates hbefore)).keepsNesting.append
    ((isNested_of_all (by decide)).keepsNesting.append hbehind)

theorem keepsNesting_someOf (hu : (someOf item).Generates language u) : KeepsNesting u := by
  obtain ⟨first, _, rfl, hfirst, _, _, rfl, ⟨rounds, rfl, hrounds, -, -⟩, rfl⟩ := hu
  have hbehind := KeepsNesting.flatten fun u hu => keepsNesting_following hitem (hrounds u hu)
  exact (hitem first hfirst).append (hbehind.append isNested_nil.keepsNesting)

variable (hheight : ∀ t, height item t ≤ 6 + 10 * nesting t)

omit hitem

include hheight

theorem nests_following (ht : nesting t ≤ k) (hh : 8 + 10 * k ≤ h) :
    (following item).Nests language height t h := by
  refine ⟨7 + 10 * k, by omega, Library.nestsAll_space (by omega) ?_⟩
  rintro before _ rfl hbefore
  refine Library.nestsAll_literal (by omega) ?_
  rintro _ rfl
  refine Library.nestsAll_space (by omega) ?_
  rintro after rest rfl hafter
  have hcomma : KeepsNesting ",".toList := (isNested_of_all (by decide)).keepsNesting
  have hrest := ((isNested_space hafter).keepsNesting rest).trans
    ((hcomma _).trans ((isNested_space hbefore).keepsNesting _))
  exact Library.nestsAll_last (Nat.lt_of_le_of_lt (hheight rest) (by omega))

include hitem

theorem nests_someOf (ht : nesting t ≤ k) (hh : 10 + 10 * k ≤ h) :
    (someOf item).Nests language height t h := by
  refine ⟨9 + 10 * k, by omega, Nat.lt_of_le_of_lt (hheight t) (by omega), ?_⟩
  rintro u rest rfl hu
  refine Library.nestsAll_last ⟨8 + 10 * k, by omega, ?_⟩
  rintro rounds rest' rfl hrounds
  have hbehind := KeepsNesting.flatten fun u hu => keepsNesting_following hitem (hrounds u hu)
  have hrest := (hbehind rest').trans (hitem u hu _)
  exact nests_following hheight (hrest.trans ht) (Nat.le_refl _)

theorem nests_listOf {first : Char} (hopening : opening.toList = [first])
    (hfirst : IsOpening first) (t : List Char) :
    (listOf opening item closing).Nests language height t (2 + 10 * nesting t) := by
  refine ⟨1 + 10 * nesting t, by omega, Library.nestsAll_literal (by omega) ?_⟩
  rintro rest rfl
  rw [hopening, List.singleton_append, nesting_opening hfirst]
  refine Library.nestsAll_space (by omega) ?_
  rintro before rest' rfl hbefore
  have hspace := (isNested_space hbefore).keepsNesting rest'
  refine ⟨⟨10 + 10 * nesting (before ++ rest'), by omega, ?_⟩, ?_⟩
  · rintro us rest'' rfl hus
    have hitems := KeepsNesting.flatten fun u hu => keepsNesting_someOf hitem (hus u hu)
    exact nests_someOf hitem hheight ((hitems rest'').trans hspace) (Nat.le_refl _)
  · rintro u rest'' rfl -
    refine Library.nestsAll_space (by omega) fun after last _ _ => ?_
    exact Library.nestsAll_last (Nat.le_add_right 1 _)

end Lists

theorem nests_of_language : ∀ definition ∈ draft.definitions, ∀ t,
    definition.2.Nests language height t (height definition.1 t) := by
  have hvalue (u : List Char) (hu : language "value" u) : KeepsNesting u := by
    obtain ⟨v, hu⟩ := hu
    exact hu.keepsNesting
  have hpair (u : List Char) (hu : language "pair" u) : KeepsNesting u := by
    obtain ⟨member, hu⟩ := hu
    exact hu.keepsNesting
  have hlow (t : List Char) : height "value" t ≤ 6 + 10 * nesting t := Nat.add_le_add_right (by decide) _
  simp only [draft, List.forall_mem_cons]
  refine ⟨fun t => ?_, fun t => ?_, nests_listOf hpair (fun t => Nat.le_refl _) rfl (.inr rfl),
    fun t => ?_, nests_listOf hvalue hlow rfl (.inl rfl), fun t => Nat.one_pos,
    fun t => Nat.one_pos, fun t => ⟨1, Nat.one_lt_two, Nat.one_pos, Nat.one_pos, trivial⟩,
    fun t => Nat.one_pos, List.forall_mem_nil _⟩
  · refine ⟨5 + 10 * nesting t, by simp [height], Library.nestsAll_space (by omega) ?_⟩
    rintro before rest rfl hbefore
    have hspace := (isNested_space hbefore).keepsNesting rest
    refine ⟨?_, fun _ _ _ _ => Library.nestsAll_last (Nat.lt_of_lt_of_le Nat.one_pos (by omega))⟩
    simp only [Expr.Nests, height]
    omega
  · refine ⟨3 + 10 * nesting t, by simp [height], ?_⟩
    simp [Expr.NestsEach, Expr.Nests, height]
    omega
  · refine ⟨5 + 10 * nesting t, by simp [height], ⟨4 + 10 * nesting t, by omega, ?_⟩, ?_⟩
    · have hstring : height "string" t = 1 := rfl
      simp only [Expr.Nests, hstring]
      omega
    rintro name _ rfl hname
    refine Library.nestsAll_space (by omega) ?_
    rintro before _ rfl hbefore
    refine Library.nestsAll_literal (by omega) ?_
    rintro _ rfl
    refine Library.nestsAll_space (by omega) ?_
    rintro after rest rfl hafter
    have hcolon : KeepsNesting ":".toList := (isNested_of_all (by decide)).keepsNesting
    have hrest := ((isNested_space hafter).keepsNesting rest).trans
      ((hcolon _).trans (((isNested_space hbefore).keepsNesting _).trans
        ((isNested_string hname).keepsNesting _)))
    refine Library.nestsAll_last ?_
    simp only [Expr.Nests, height]
    omega

/-! ## Evaluation -/

theorem parse_eq (text : String) : parse text = (library.parse 0 text {}).map Match.value := by
  rw [parse, parseLogged, Parsed.map_result, Library.parse]

theorem IsText.unique {text : List Char} {v v' : Value} (h : IsText text v) (h' : IsText text v') :
    v = v' := by
  obtain ⟨id, hid, -⟩ := defines 0 rfl
  obtain ⟨m, rfl, rfl⟩ := Library.readsNamed_both hid (reads_text h) (reads_text h')
  rfl

theorem parse_eq_ok_iff (text : String) :
    (∃ error, parse text = .error error ∧ error.kind = .depthLimit) ∨
      ∀ v, parse text = .ok v ↔ IsText text.toList v := by
  have hderives (r : RuleRef) (p : Place) (d : Derivation)
      (hr : library.lookup 0 "json" = some r) (h : library.Derives r p d) :
      Library.TakesUp (fun u => ∃ v, IsText u v) p d :=
    h.takesUp_of_single rfl added language_of_generates hr
  rw [parse_eq]
  exact Library.parse_value_of_single rfl added rfl rfl (fun u v h => reads_text h) hderives text

/-- Fifty brackets around each other are not too deep, wherever and in whatever text they stand. -/
theorem lt_nesting_of_depthLimit {text : String} {error : ParseError}
    (h : parse text = .error error) (hkind : error.kind = .depthLimit) : 50 < nesting text.toList := by
  rw [parse_eq] at h
  have hdepth := Library.maxDepth_lt_of_single rfl added rfl rfl language_of_generates nests_of_language
    h hkind
  simp only [height, defaultMaxDepth] at hdepth
  omega

/-- Unless a text is nested too deep, it is parsed if and only if it is one of RFC 8259, and to the one
value that its structure gives. The fields of an object are sorted by their names, and a name has the
last value that was given to it. Only a text with more than fifty brackets around each other is nested
too deep, and in a text that spells a tree these are as many as the tree is deep. -/
theorem parse_spec :
    (∀ text : String,
      (∃ error, parse text = .error error ∧ error.kind = .depthLimit) ∨
        ∀ v, parse text = .ok v ↔ IsText text.toList v) ∧
    (∀ text v v', IsText text v → IsText text v' → v = v') ∧
    (∀ members : List (List Char × Value), ∃ sorted, objectValue members = .object sorted ∧
      IsSorted sorted ∧
      ∀ name, sorted.lookup name = (members.filterMap memberField?).reverse.lookup name) ∧
    (∀ text error, parse text = .error error → error.kind = .depthLimit →
      50 < nesting text.toList) ∧
    ∀ text t, SpellsText text t → nesting text = t.depth :=
  ⟨parse_eq_ok_iff, fun _ _ _ h h' => h.unique h', fun _ => Value.ofFields_spec _,
    fun _ _ => lt_nesting_of_depthLimit, fun _ _ h => h.nesting_eq⟩

end Peg.Json
