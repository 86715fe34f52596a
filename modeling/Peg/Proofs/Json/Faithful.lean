import Peg.Proofs.Json.Evaluation
import Peg.Proofs.Json.Literals
import Peg.Proofs.Json.Tree
import Peg.Proofs.Match.Walk

/-!
# What evaluation keeps of a document

A value is faithful to a document if nothing of the document is lost in it: numbers and strings are
there as numbers and strings, every member of an object has its field, and only `null` is `null`. That
is so unless the document has a token without a value, which is a string with a surrogate outside a
pair or a number out of range: such a token is `null`, and a member with such a name is left out. Main
statement: `parse_faithful_iff`.
-/

namespace Peg.Json

open View (exists_mem_of_forall₂)

namespace Token

/-- The token is a number that is not out of range, or a string that stands for a text. -/
def HasValue : Token → Prop
  | number u => ∃ v, number? u = some v
  | string u => ∃ body cs, u = '"' :: (body ++ ['"']) ∧ StandsFor body cs

def value : Token → Value
  | number u => numberValue u
  | string u => stringValue u

theorem value_eq_null {token : Token} (htoken : token.IsToken) (h : ¬ token.HasValue) :
    token.value = .null := by
  cases token with
  | number u =>
      have hnone : number? u = none := Option.eq_none_iff_forall_ne_some.2 fun v hv => h ⟨v, hv⟩
      rw [value, numberValue, hnone]
      rfl
  | string u =>
      obtain ⟨body, rfl, hbody⟩ := htoken
      have hnone : string? ('"' :: (body ++ ['"'])) = none :=
        Option.eq_none_iff_forall_ne_some.2 fun cs hcs =>
          h ⟨body, cs, rfl, (readsLiterals.string_iff hbody).1 hcs⟩
      rw [value, stringValue, hnone]
      rfl

end Token

/-! ## Faithful values -/

mutual

/-- Nothing of the tree is lost in the value. -/
inductive Faithful : Tree → Value → Prop
  | null : Faithful .null .null
  | bool (b : Bool) : Faithful (.bool b) (.bool b)
  | int {u n} : number? u = some (.int n) → Writes u n → Faithful (.number u) (.int n)
  | float {u x} : number? u = some (.float x) → Faithful (.number u) (.float x)
  | string {body cs} : StandsFor body cs →
      Faithful (.string ('"' :: (body ++ ['"']))) (.string (String.ofList cs))
  | array {items values} : List.Forall₂ Faithful items values →
      Faithful (.array items) (.array values)
  | object {members fields sorted} : List.Forall₂ FaithfulMember members fields → IsSorted sorted →
      (∀ key, sorted.lookup key = fields.reverse.lookup key) →
      Faithful (.object members) (.object sorted)

inductive FaithfulMember : List Char × Tree → String × Value → Prop
  | pair {body cs t v} : StandsFor body cs → Faithful t v →
      FaithfulMember ('"' :: (body ++ ['"']), t) (String.ofList cs, v)

end

theorem Faithful.null_iff {t : Tree} {v : Value} (h : Faithful t v) : v = .null ↔ t = .null := by
  cases h <;> simp

theorem Faithful.isSome_lookup {members : List (List Char × Tree)} {sorted : List (String × Value)}
    (h : Faithful (.object members) (.object sorted)) {member : List Char × Tree}
    (hmember : member ∈ members) :
    ∃ body cs, member.1 = '"' :: (body ++ ['"']) ∧ StandsFor body cs ∧
      (sorted.lookup (String.ofList cs)).isSome := by
  cases h with
  | @object _ fields _ hfields _ hlookup =>
      obtain ⟨field, hfield, hfaithful⟩ := exists_mem_of_forall₂ hfields hmember
      cases hfaithful with
      | @pair body cs t v hcs _ =>
          refine ⟨body, cs, rfl, hcs, ?_⟩
          rw [hlookup, List.lookup_isSome_iff]
          exact ⟨_, List.mem_reverse.2 hfield, by simp⟩

theorem Faithful.hasValue {t : Tree} {v : Value} (h : Faithful t v) :
    ∀ token ∈ t.tokens, token.HasValue := by
  induction t using Tree.inductionOn generalizing v with
  | null => exact List.forall_mem_nil _
  | bool b => exact List.forall_mem_nil _
  | number u =>
      rw [Tree.tokens, List.forall_mem_singleton]
      cases h with
      | int hn _ => exact ⟨_, hn⟩
      | float hx => exact ⟨_, hx⟩
  | string u =>
      rw [Tree.tokens, List.forall_mem_singleton]
      cases h with
      | string hcs => exact ⟨_, _, rfl, hcs⟩
  | array items ih =>
      cases h with
      | array hvalues =>
          rw [Tree.tokens, Tree.itemTokens_eq]
          intro token htoken
          obtain ⟨t, ht, htoken⟩ := List.mem_flatMap.1 htoken
          obtain ⟨v, -, hv⟩ := exists_mem_of_forall₂ hvalues ht
          exact ih t ht hv token htoken
  | object members ih =>
      cases h with
      | object hfields _ _ =>
          rw [Tree.tokens, Tree.memberTokens_eq]
          intro token htoken
          obtain ⟨member, hmember, htoken⟩ := List.mem_flatMap.1 htoken
          obtain ⟨field, -, hfaithful⟩ := exists_mem_of_forall₂ hfields hmember
          cases hfaithful with
          | pair hcs hv =>
              rcases List.mem_cons.1 htoken with rfl | htoken
              · exact ⟨_, _, rfl, hcs⟩
              · exact ih _ hmember hv token htoken

theorem exists_fields {members : List (List Char × Tree)}
    (hnames : ∀ member ∈ members, (Token.string member.1).HasValue)
    (hvalues : ∀ member ∈ members, Faithful member.2 member.2.value) :
    ∃ fields, (Tree.memberValues members).filterMap memberField? = fields ∧
      List.Forall₂ FaithfulMember members fields := by
  induction members with
  | nil => exact ⟨[], rfl, .nil⟩
  | cons member members ih =>
      obtain ⟨name, t⟩ := member
      obtain ⟨hname, hnames⟩ := List.forall_mem_cons.1 hnames
      obtain ⟨hvalue, hvalues⟩ := List.forall_mem_cons.1 hvalues
      obtain ⟨fields, hfields, hfaithful⟩ := ih hnames hvalues
      obtain ⟨body, cs, rfl, hcs⟩ := hname
      refine ⟨(String.ofList cs, t.value) :: fields, ?_, .cons (.pair hcs hvalue) hfaithful⟩
      have hfield : memberField? ('"' :: (body ++ ['"']), t.value) =
          some (String.ofList cs, t.value) := by
        rw [memberField?, readsLiterals.string_eq hcs, Option.map_some]
      rw [Tree.memberValues, List.filterMap_cons_some hfield, hfields]

theorem faithful_value {t : Tree} (h : ∀ token ∈ t.tokens, token.HasValue) : Faithful t t.value := by
  induction t using Tree.inductionOn with
  | null => exact .null
  | bool b => exact .bool b
  | number u =>
      rw [Tree.tokens, List.forall_mem_singleton] at h
      obtain ⟨v, hv⟩ := h
      rw [Tree.value, numberValue, hv, Option.getD_some]
      rcases readsLiterals.number hv with ⟨n, rfl, hn⟩ | ⟨x, rfl⟩
      · exact .int hv hn
      · exact .float hv
  | string u =>
      rw [Tree.tokens, List.forall_mem_singleton] at h
      obtain ⟨body, cs, rfl, hcs⟩ := h
      rw [Tree.value, stringValue, readsLiterals.string_eq hcs]
      exact .string hcs
  | array items ih =>
      rw [Tree.tokens, Tree.itemTokens_eq] at h
      rw [Tree.value, Tree.values_eq]
      refine .array (List.forall₂_map_right_iff.2 (List.forall₂_same.2 fun t ht => ?_))
      exact ih t ht fun token htoken => h token (List.mem_flatMap.2 ⟨t, ht, htoken⟩)
  | object members ih =>
      rw [Tree.tokens, Tree.memberTokens_eq] at h
      have hmember {member : List Char × Tree} (hmember : member ∈ members) :
          ∀ token ∈ Token.string member.1 :: member.2.tokens, token.HasValue := fun token htoken =>
        h token (List.mem_flatMap.2 ⟨member, hmember, htoken⟩)
      obtain ⟨fields, hfields, hfaithful⟩ := exists_fields
        (fun member hm => hmember hm _ List.mem_cons_self)
        (fun member hm => ih member hm fun token htoken =>
          hmember hm token (List.mem_cons_of_mem _ htoken))
      obtain ⟨sorted, hsorted, hsort, hlookup⟩ := Value.ofFields_spec fields
      rw [Tree.value, objectValue, hfields, hsorted]
      exact .object hfaithful hsort hlookup

/-! ## Documents -/

theorem isText_of_parse {text : String} {v : Value} (h : parse text = .ok v) :
    IsText text.toList v := by
  rcases parse_eq_ok_iff text with ⟨error, herror, -⟩ | hiff
  · cases herror.symm.trans h
  · exact (hiff v).1 h

/-- Whatever tree a text spells, it is evaluated to the value of the tree, and nothing of the tree is
lost in the value if and only if every number is in range and every string stands for a text. A token
without a value is `null`. Where nothing is lost, only `null` is `null`, and every member of an object
has a field. -/
theorem parse_faithful_iff {text : String} {v : Value} (h : parse text = .ok v) :
    (∃ t, SpellsText text.toList t) ∧
      (∀ t, SpellsText text.toList t →
        v = t.value ∧ (Faithful t v ↔ ∀ token ∈ t.tokens, token.HasValue) ∧
          ∀ token ∈ t.tokens, ¬ token.HasValue → token.value = .null) ∧
      (∀ t v, Faithful t v → (v = .null ↔ t = .null)) ∧
      ∀ members sorted, Faithful (.object members) (.object sorted) → ∀ member ∈ members,
        ∃ body cs, member.1 = '"' :: (body ++ ['"']) ∧ StandsFor body cs ∧
          (sorted.lookup (String.ofList cs)).isSome := by
  have htext := isText_of_parse h
  refine ⟨?_, fun t ht => ?_, fun _ _ => Faithful.null_iff,
    fun _ _ hfaithful _ => hfaithful.isSome_lookup⟩
  · obtain ⟨t, ht, -⟩ := isText_iff_exists_tree.1 htext
    exact ⟨t, ht⟩
  · obtain rfl := htext.unique (isText_iff_exists_tree.2 ⟨t, ht, rfl⟩)
    obtain ⟨before, u, after, -, -, -, hu⟩ := ht
    exact ⟨rfl, ⟨Faithful.hasValue, faithful_value⟩,
      fun token htoken => Token.value_eq_null (hu.isToken token htoken)⟩

/-- A surrogate pair is one character, and nothing is lost. -/
theorem parse_faithful_iff_pair :
    ∃ v, parse "\"\\ud83d\\ude00\"" = .ok v ∧
      SpellsText "\"\\ud83d\\ude00\"".toList (.string "\"\\ud83d\\ude00\"".toList) ∧
      Faithful (.string "\"\\ud83d\\ude00\"".toList) v := by
  have hok : (parse "\"\\ud83d\\ude00\"").toOption.isSome = true := by decide +kernel
  have htext : SpellsText "\"\\ud83d\\ude00\"".toList (.string "\"\\ud83d\\ude00\"".toList) :=
    spellsText_of_spells (.string (takes_string_iff.1 (by decide +kernel)))
  cases hparse : parse "\"\\ud83d\\ude00\"" with
  | error error =>
      rw [hparse] at hok
      cases hok
  | ok v =>
      obtain ⟨-, htrees, -⟩ := parse_faithful_iff hparse
      obtain ⟨-, hfaithful, -⟩ := htrees _ htext
      refine ⟨v, rfl, htext, hfaithful.2 ?_⟩
      rw [Tree.tokens, List.forall_mem_singleton]
      have hhigh : IsCodeUnit "d83d".toList 0xd83d :=
        ⟨'d', '8', '3', 'd', rfl, by decide, by decide, by decide, by decide, by decide⟩
      have hlow : IsCodeUnit "de00".toList 0xde00 :=
        ⟨'d', 'e', '0', '0', rfl, by decide, by decide, by decide, by decide, by decide⟩
      exact ⟨"\\ud83d\\ude00".toList, _, rfl, .pair hhigh rfl hlow rfl .nil⟩

def isNull : Value → Bool
  | .null => true
  | _ => false

def isEmptyObject : Value → Bool
  | .object [] => true
  | _ => false

/-- A surrogate without the other half of its pair and a number out of range are `null`, although the
texts say otherwise, and a member with such a name is left out. -/
theorem parse_loses :
    SpellsText "\"\\ud800\"".toList (.string "\"\\ud800\"".toList) ∧
      parse "\"\\ud800\"" = .ok .null ∧
      SpellsText "1e999".toList (.number "1e999".toList) ∧ parse "1e999" = .ok .null ∧
      parse "\x7b\"\\ud800\":1\x7d" = .ok (.object []) := by
  have hnull {result : Except ParseError Value} (h : result.toOption.any isNull = true) :
      result = .ok .null := by
    cases result with
    | error error => cases h
    | ok v => cases v <;> first | rfl | cases h
  have hempty {result : Except ParseError Value} (h : result.toOption.any isEmptyObject = true) :
      result = .ok (.object []) := by
    cases result with
    | error error => cases h
    | ok v =>
        cases v with
        | object fields => cases fields <;> first | rfl | cases h
        | _ => cases h
  obtain ⟨hstring, hnumber, hobject⟩ :
      (parse "\"\\ud800\"").toOption.any isNull = true ∧
        (parse "1e999").toOption.any isNull = true ∧
        (parse "\x7b\"\\ud800\":1\x7d").toOption.any isEmptyObject = true := by
    decide +kernel
  exact ⟨spellsText_of_spells (.string (takes_string_iff.1 (by decide +kernel))), hnull hstring,
    spellsText_of_spells (.number (takes_number_iff.1 (by decide +kernel))), hnull hnumber,
    hempty hobject⟩

end Peg.Json
