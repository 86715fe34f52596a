import Peg.Proofs.Json.Syntax

/-!
# Document trees of JSON

The structure of a text apart from its white space, with the tokens of its numbers and strings as they
are written. The values of a text are those of the trees that it spells. Main statement:
`isValue_iff_exists_tree`.
-/

namespace Peg.Json

inductive Tree where
  | null
  | bool (b : Bool)
  | number (token : List Char)
  | string (token : List Char)
  | array (items : List Tree)
  | object (members : List (List Char × Tree))

inductive Token where
  | number (u : List Char)
  | string (u : List Char)

/-- The token is one of the grammar. -/
def Token.IsToken : Token → Prop
  | number u => IsNumber u
  | string u => IsString u

namespace Tree

theorem inductionOn {motive : Tree → Prop} (t : Tree) (null : motive .null)
    (bool : ∀ b, motive (.bool b)) (number : ∀ u, motive (.number u))
    (string : ∀ u, motive (.string u))
    (array : ∀ items, (∀ t ∈ items, motive t) → motive (.array items))
    (object : ∀ members, (∀ member ∈ members, motive member.2) → motive (.object members)) :
    motive t :=
  @Tree.rec motive (fun items => ∀ t ∈ items, motive t)
    (fun members => ∀ member ∈ members, motive member.2) (fun member => motive member.2)
    null bool number string array object
    (List.forall_mem_nil _) (fun _ _ ht hts => List.forall_mem_cons.2 ⟨ht, hts⟩)
    (List.forall_mem_nil _) (fun _ _ hm hms => List.forall_mem_cons.2 ⟨hm, hms⟩) (fun _ _ ht => ht) t

mutual

def value : Tree → Value
  | null => .null
  | bool b => .bool b
  | number u => numberValue u
  | string u => stringValue u
  | array items => .array (values items)
  | object members => objectValue (memberValues members)

def values : List Tree → List Value
  | [] => []
  | t :: ts => t.value :: values ts

def memberValues : List (List Char × Tree) → List (List Char × Value)
  | [] => []
  | (name, t) :: members => (name, t.value) :: memberValues members

end

mutual

/-- The numbers and strings of a tree, names of members included. -/
def tokens : Tree → List Token
  | null => []
  | bool _ => []
  | number u => [.number u]
  | string u => [.string u]
  | array items => itemTokens items
  | object members => memberTokens members

def itemTokens : List Tree → List Token
  | [] => []
  | t :: ts => t.tokens ++ itemTokens ts

def memberTokens : List (List Char × Tree) → List Token
  | [] => []
  | (name, t) :: members => .string name :: t.tokens ++ memberTokens members

end

theorem values_eq (items : List Tree) : values items = items.map value := by
  induction items with
  | nil => rfl
  | cons t ts ih => rw [values, ih, List.map_cons]

theorem memberValues_eq (members : List (List Char × Tree)) :
    memberValues members = members.map fun member => (member.1, member.2.value) := by
  induction members with
  | nil => rfl
  | cons member members ih => rw [memberValues, ih, List.map_cons]

theorem itemTokens_eq (items : List Tree) : itemTokens items = items.flatMap tokens := by
  induction items with
  | nil => rfl
  | cons t ts ih => rw [itemTokens, ih, List.flatMap_cons]

theorem memberTokens_eq (members : List (List Char × Tree)) :
    memberTokens members = members.flatMap fun member => .string member.1 :: member.2.tokens := by
  induction members with
  | nil => rfl
  | cons member members ih => rw [memberTokens, ih, List.flatMap_cons]

end Tree

/-! ## Spelling -/

mutual

inductive Spells : List Char → Tree → Prop
  | null : Spells "null".toList .null
  | bool (b : Bool) : Spells (if b then "true" else "false").toList (.bool b)
  | number {u} : IsNumber u → Spells u (.number u)
  | string {u} : IsString u → Spells u (.string u)
  | array {u items} : Bracketed '[' ']' Spells u items → Spells u (.array items)
  | object {u members} : Bracketed '\x7b' '\x7d' SpellsMember u members → Spells u (.object members)

inductive SpellsMember : List Char → List Char × Tree → Prop
  | pair {name separator u t} : IsString name → IsStructural ':' separator → Spells u t →
      SpellsMember (name ++ (separator ++ u)) (name, t)

end

/-- A text that spells a tree, with white space around it. -/
def SpellsText (text : List Char) (t : Tree) : Prop :=
  ∃ before u after, text = before ++ (u ++ after) ∧ IsSpace before ∧ IsSpace after ∧ Spells u t

theorem spellsText_of_spells {u : List Char} {t : Tree} (h : Spells u t) : SpellsText u t :=
  ⟨[], u, [], (List.append_nil u).symm, isSpace_nil, isSpace_nil, h⟩

section Lists

variable {α β : Type} {opening closing : Char} {R : List Char → α → Prop} {S : List Char → β → Prop}
  {u : List Char} {as : List α}

theorem Items.map {f : α → β} (h : Items R u as) (hf : ∀ a ∈ as, ∀ u, R u a → S u (f a)) :
    Items S u (as.map f) := by
  induction h with
  | one ha => exact .one (hf _ List.mem_cons_self _ ha)
  | more ha hseparator _ ih =>
      exact .more (hf _ List.mem_cons_self _ ha) hseparator
        (ih fun a hmem => hf a (List.mem_cons_of_mem _ hmem))

theorem Bracketed.map {f : α → β} (h : Bracketed opening closing R u as)
    (hf : ∀ a ∈ as, ∀ u, R u a → S u (f a)) : Bracketed opening closing S u (as.map f) := by
  cases h with
  | empty hopen hclose => exact .empty hopen hclose
  | items hopen hitems hclose => exact .items hopen (hitems.map hf) hclose

theorem Items.exists_of_mem (h : Items R u as) {a : α} (ha : a ∈ as) : ∃ u, R u a := by
  induction h with
  | one hfirst => exact List.mem_singleton.1 ha ▸ ⟨_, hfirst⟩
  | more hfirst _ _ ih =>
      rcases List.mem_cons.1 ha with rfl | ha
      · exact ⟨_, hfirst⟩
      · exact ih ha

theorem Bracketed.exists_of_mem (h : Bracketed opening closing R u as) {a : α} (ha : a ∈ as) :
    ∃ u, R u a := by
  cases h with
  | empty _ _ => cases ha
  | items _ hitems _ => exact hitems.exists_of_mem ha

theorem Items.exists_map {f : β → α} (h : Items (fun u a => ∃ b, S u b ∧ f b = a) u as) :
    ∃ bs, Items S u bs ∧ bs.map f = as := by
  induction h with
  | one ha =>
      obtain ⟨b, hb, rfl⟩ := ha
      exact ⟨[b], .one hb, rfl⟩
  | more ha hseparator _ ih =>
      obtain ⟨b, hb, rfl⟩ := ha
      obtain ⟨bs, hbs, rfl⟩ := ih
      exact ⟨b :: bs, .more hb hseparator hbs, rfl⟩

theorem Bracketed.exists_map {f : β → α}
    (h : Bracketed opening closing (fun u a => ∃ b, S u b ∧ f b = a) u as) :
    ∃ bs, Bracketed opening closing S u bs ∧ bs.map f = as := by
  cases h with
  | empty hopen hclose => exact ⟨[], .empty hopen hclose, rfl⟩
  | items hopen hitems hclose =>
      obtain ⟨bs, hbs, rfl⟩ := hitems.exists_map
      exact ⟨bs, .items hopen hbs hclose, rfl⟩

end Lists

theorem Spells.isValue {u : List Char} {t : Tree} (h : Spells u t) : IsValue u t.value := by
  induction t using Tree.inductionOn generalizing u with
  | null =>
      cases h
      exact .null
  | bool b =>
      cases h
      exact .bool b
  | number token =>
      cases h with
      | number hu => exact .number hu
  | string token =>
      cases h with
      | string hu => exact .string hu
  | array items ih =>
      cases h with
      | array hitems =>
          rw [Tree.value, Tree.values_eq]
          exact .array (hitems.map fun t ht u hu => ih t ht hu)
  | object members ih =>
      cases h with
      | object hmembers =>
          rw [Tree.value, Tree.memberValues_eq]
          refine .object (hmembers.map fun member hmember u hu => ?_)
          cases hu with
          | pair hname hseparator hu => exact .pair hname hseparator (ih _ hmember hu)

theorem Spells.isToken {u : List Char} {t : Tree} (h : Spells u t) :
    ∀ token ∈ t.tokens, token.IsToken := by
  induction t using Tree.inductionOn generalizing u with
  | null => exact List.forall_mem_nil _
  | bool b => exact List.forall_mem_nil _
  | number token =>
      rw [Tree.tokens, List.forall_mem_singleton]
      cases h with
      | number hu => exact hu
  | string token =>
      rw [Tree.tokens, List.forall_mem_singleton]
      cases h with
      | string hu => exact hu
  | array items ih =>
      rw [Tree.tokens, Tree.itemTokens_eq]
      intro token htoken
      obtain ⟨t, ht, htoken⟩ := List.mem_flatMap.1 htoken
      cases h with
      | array hitems =>
          obtain ⟨u, hu⟩ := hitems.exists_of_mem ht
          exact ih t ht hu token htoken
  | object members ih =>
      rw [Tree.tokens, Tree.memberTokens_eq]
      intro token htoken
      obtain ⟨member, hmember, htoken⟩ := List.mem_flatMap.1 htoken
      cases h with
      | object hmembers =>
          obtain ⟨u, hu⟩ := hmembers.exists_of_mem hmember
          cases hu with
          | pair hname _ hu =>
              rcases List.mem_cons.1 htoken with rfl | htoken
              · exact hname
              · exact ih _ hmember hu token htoken

/-- The values of a text are those of the trees that it spells. -/
theorem isValue_iff_exists_tree {u : List Char} {v : Value} :
    IsValue u v ↔ ∃ t, Spells u t ∧ t.value = v := by
  constructor
  · intro h
    refine IsValue.induct (P := fun u v => ∃ t, Spells u t ∧ t.value = v)
      (Q := fun u member => ∃ m, SpellsMember u m ∧ (m.1, m.2.value) = member)
      ⟨.null, .null, rfl⟩ (fun b => ⟨.bool b, .bool b, rfl⟩)
      (fun hu => ⟨.number _, .number hu, rfl⟩) (fun hu => ⟨.string _, .string hu, rfl⟩)
      (fun hvalues => ?_) (fun hfields => ?_) (fun hname hseparator ih => ?_) h
    · obtain ⟨items, hitems, rfl⟩ := hvalues.exists_map
      exact ⟨.array items, .array hitems, by rw [Tree.value, Tree.values_eq]⟩
    · obtain ⟨members, hmembers, rfl⟩ := hfields.exists_map
      exact ⟨.object members, .object hmembers, by rw [Tree.value, Tree.memberValues_eq]⟩
    · obtain ⟨t, ht, rfl⟩ := ih
      exact ⟨(_, t), .pair hname hseparator ht, rfl⟩
  · rintro ⟨t, ht, rfl⟩
    exact ht.isValue

theorem isText_iff_exists_tree {text : List Char} {v : Value} :
    IsText text v ↔ ∃ t, SpellsText text t ∧ t.value = v := by
  constructor
  · rintro ⟨before, u, after, htext, hbefore, hafter, hu⟩
    obtain ⟨t, ht, hv⟩ := isValue_iff_exists_tree.1 hu
    exact ⟨t, ⟨before, u, after, htext, hbefore, hafter, ht⟩, hv⟩
  · rintro ⟨t, ⟨before, u, after, htext, hbefore, hafter, ht⟩, rfl⟩
    exact ⟨before, u, after, htext, hbefore, hafter, ht.isValue⟩

end Peg.Json
