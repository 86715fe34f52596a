import Peg.Member
import Peg.Proofs.Extension
import Peg.Proofs.Match.Reading

/-!
# What members make of a match

A member that asks a match for nothing but its text and its children has the same value on all matches
that agree in these. Where the `value` members are such, a wrapper without one of its own changes the
value of a match as little as its text and its children, and only adds names. Main statements:
`Match.bears_branch` and `Match.wraps_wrapped`.
-/

namespace Peg

/-- The member asks for nothing but the text and the children. -/
def Member.IsLocal (f : Member) : Prop :=
  ∀ m m' : Match, m.text = m'.text → m.children = m'.children → f m = f m'

/-- The extension with a `value` member and no other, if there is one. -/
def Extension.ofValue? (f? : Option Member) : Option Extension :=
  f?.map fun f => Extension.insert {} "value" f

namespace Library

/-- The `value` member of a chain of rules. -/
def valueMember? (lib : Library) (chain : List RuleRef) : Option Member :=
  (lib.chainExtension chain).get? "value"

variable {lib : Library} {r : RuleRef} {rule : Rule RuleRef} {chain : List RuleRef}
  {f? : Option Member}

@[simp] theorem valueMember?_nil : lib.valueMember? [] = none := rfl

theorem valueMember?_cons (hr : lib.rule? r = some rule)
    (hx : rule.extension = Extension.ofValue? f?) :
    lib.valueMember? (r :: chain) = f?.or (lib.valueMember? chain) := by
  cases f? with
  | none =>
      have hextension : lib.chainExtension (r :: chain) = lib.chainExtension chain := by
        rw [Extension.ofValue?, Option.map_none] at hx
        simp [chainExtension, hr, hx]
      rw [valueMember?, hextension, Option.none_or, valueMember?]
  | some f =>
      have hextension : lib.chainExtension (r :: chain) =
          (lib.chainExtension chain).merge (Extension.insert {} "value" f) := by
        rw [Extension.ofValue?, Option.map_some] at hx
        simp [chainExtension, hr, hx]
      rw [valueMember?, hextension, Extension.get?_merge, Extension.get?_insert, if_pos rfl]
      rfl

end Library

namespace Match

variable {lib : Library} {source : List Char} {p : Place} {r : RuleRef} {rule : Rule RuleRef}
  {d : Derivation} {f? : Option Member} {n : Nat} {parts : List Derivation}

theorem withMembers_call (node : Node) (children : List Match) (e : Extension) (name : String) :
    (withMembers node children e).call name =
      (e.get? name).map fun member => member (withMembers node children (e.erase name)) := by
  conv_lhs => unfold withMembers
  simp only [call]
  split
  · next member h => rw [h, Option.map_some]
  · next h => rw [h, Option.map_none]

/-- A member is asked of a match that differs from this one in its members only. -/
theorem ofDerivation_call (d : Derivation) (name : String) :
    ∃ m : Match, m.node = (ofDerivation lib source p d).node ∧
      m.children = (ofDerivation lib source p d).children ∧
      (ofDerivation lib source p d).call name =
        ((lib.chainExtension d.chain).get? name).map fun member => member m := by
  rw [ofDerivation_eq, withMembers_node, withMembers_children]
  exact ⟨withMembers _ _ ((lib.chainExtension d.chain).erase name), withMembers_node _ _ _,
    withMembers_children _ _ _, withMembers_call _ _ _ _⟩

theorem text_eq_of_node {m m' : Match} (h : m.node = m'.node) : m.text = m'.text := by
  simp only [text, length, h]

theorem ofDerivation_value (hlocal : ∀ f ∈ lib.valueMember? d.chain, f.IsLocal) :
    (ofDerivation lib source p d).value =
      (lib.valueMember? d.chain).elim (.string (ofDerivation lib source p d).text)
        fun f => f (ofDerivation lib source p d) := by
  obtain ⟨m, hnode, hchildren, hcall⟩ := @ofDerivation_call lib source p d "value"
  rw [← Library.valueMember?] at hcall
  rw [value, hcall]
  cases hf : lib.valueMember? d.chain with
  | none => rfl
  | some f => exact hlocal f hf m _ (text_eq_of_node hnode) hchildren

theorem ofDerivation_text :
    (ofDerivation lib source p d).text = String.ofList (takeBytes d.length p.rest) := by
  rw [text, length, ofDerivation_node]

theorem hasName_ofDerivation {name : String} :
    (ofDerivation lib source p d).hasName name = true ↔
      ∃ r ∈ d.chain, ∃ rule, lib.rule? r = some rule ∧ name ∈ rule.names := by
  rw [hasName, names, ofDerivation_node, List.contains_iff_mem]
  simp only [Library.chainNames, List.mem_eraseDups, List.mem_flatMap]
  apply exists_congr
  intro r
  apply and_congr_right
  intro _
  cases lib.rule? r <;> simp

/-! ## Branches and wrappers -/

/-- A match with these names and these children, valued by a member if there is one. -/
structure Bears (m : Match) (names : List String) (f? : Option Member) (text : List Char)
    (children : List Match) : Prop where
  hasName : ∀ name, m.hasName name = true ↔ name ∈ names
  text : m.text = String.ofList text
  children : m.children = children
  value : m.value = f?.elim (.string m.text) fun f => f m

/-- A match with these names besides those of another one, and valued like this unless there is a
member to value it by. -/
structure Wraps (m inner : Match) (names : List String) (f? : Option Member) : Prop where
  hasName : ∀ name, m.hasName name = true ↔ name ∈ names ∨ inner.hasName name = true
  text : m.text = inner.text
  children : m.children = inner.children
  value : m.value = f?.elim inner.value fun f => f m

section Branch

variable (hr : lib.rule? r = some rule) (hx : rule.extension = Extension.ofValue? f?)

include hr hx

theorem valueMember?_branch : lib.valueMember? (Derivation.branch r n parts).chain = f? := by
  rw [Derivation.chain, Derivation.wrappers, List.nil_append, Derivation.primary,
    Library.valueMember?_cons hr hx, Library.valueMember?_nil, Option.or_none]

/-- What a rule that is no wrapper makes of its parts. -/
theorem bears_branch (hlocal : ∀ f ∈ f?, f.IsLocal) :
    (ofDerivation lib source p (.branch r n parts)).Bears rule.names f? (takeBytes n p.rest)
      (ofDerivations lib source p parts) := by
  have hmember : lib.valueMember? (Derivation.branch r n parts).chain = f? :=
    valueMember?_branch hr hx
  refine ⟨?_, ofDerivation_text, ofDerivation_children lib source p _, ?_⟩
  · intro name
    rw [hasName_ofDerivation]
    simp [Derivation.chain, Derivation.wrappers, Derivation.primary, hr]
  · rw [ofDerivation_value (by rwa [hmember]), hmember]

end Branch

section Wrapped

variable (hr : lib.rule? r = some rule) (hx : rule.extension = Extension.ofValue? f?)
  (hlocal : ∀ f ∈ f?, f.IsLocal) (hd : ∀ f ∈ lib.valueMember? d.chain, f.IsLocal)

include hr hx

theorem valueMember?_wrapped :
    lib.valueMember? (Derivation.wrapped r d).chain = f?.or (lib.valueMember? d.chain) :=
  Library.valueMember?_cons hr hx

include hlocal hd

theorem isLocal_wrapped : ∀ f ∈ lib.valueMember? (Derivation.wrapped r d).chain, f.IsLocal := by
  rw [valueMember?_wrapped hr hx]
  cases f? with
  | none => exact hd
  | some f => exact hlocal

/-- What a wrapper makes of the match of the rule inside. -/
theorem wraps_wrapped :
    (ofDerivation lib source p (.wrapped r d)).Wraps (ofDerivation lib source p d) rule.names
      f? := by
  have hall := isLocal_wrapped hr hx hlocal hd
  have htext : (ofDerivation lib source p (.wrapped r d)).text =
      (ofDerivation lib source p d).text := by
    rw [ofDerivation_text, ofDerivation_text]
    rfl
  have hchildren : (ofDerivation lib source p (.wrapped r d)).children =
      (ofDerivation lib source p d).children := by
    rw [ofDerivation_children, ofDerivation_children]
    rfl
  refine ⟨?_, htext, hchildren, ?_⟩
  · intro name
    have hchain : (Derivation.wrapped r d).chain = r :: d.chain := rfl
    rw [hasName_ofDerivation, hasName_ofDerivation, hchain]
    simp [hr]
  · rw [ofDerivation_value hall, valueMember?_wrapped hr hx]
    cases f? with
    | some f => rfl
    | none =>
        rw [Option.none_or, ofDerivation_value hd]
        cases hf : lib.valueMember? d.chain with
        | none =>
            show Value.string _ = Value.string _
            rw [htext]
        | some f => exact hd f hf _ _ htext hchildren

end Wrapped

/-! ## Names -/

theorem Bears.namedFrom {m : Match} {text : List Char} {children : List Match}
    (h : m.Bears [] f? text children) : m.namedFrom = namedFromAll children := by
  obtain ⟨node, call, parts⟩ := m
  have hnames : node.names = [] := by
    rw [List.eq_nil_iff_forall_not_mem]
    intro name hname
    have hmem := (h.hasName name).1 (List.contains_iff_mem.2 hname)
    exact List.not_mem_nil hmem
  obtain rfl : parts = children := h.children
  rw [Match.namedFrom, hnames]
  rfl

theorem namedFrom_of_hasName {m : Match} {name : String} (h : m.hasName name = true) :
    m.namedFrom = [m] := by
  obtain ⟨node, call, parts⟩ := m
  have hnames : node.names.isEmpty = false := by
    rw [← Bool.not_eq_true, List.isEmpty_iff]
    intro hnone
    have hmem : name ∈ node.names := List.contains_iff_mem.1 h
    rw [hnone] at hmem
    exact List.not_mem_nil hmem
  rw [namedFrom, hnames]
  rfl

theorem namedFromAll_cons (m : Match) (ms : List Match) :
    namedFromAll (m :: ms) = m.namedFrom ++ namedFromAll ms := by
  rw [namedFromAll]

@[simp] theorem namedFromAll_nil : namedFromAll [] = [] := by
  rw [namedFromAll]

/-- A match without names and without children. -/
structure IsBare (m : Match) : Prop where
  hasName : ∀ name, m.hasName name = false
  namedFrom : m.namedFrom = []

theorem Bears.isBare {m : Match} {text : List Char} (h : m.Bears [] f? text []) : m.IsBare where
  hasName name := by
    rw [← Bool.not_eq_true, h.hasName]
    exact List.not_mem_nil
  namedFrom := by rw [h.namedFrom, namedFromAll_nil]

theorem Wraps.hasName_inner {m inner : Match} {names : List String} {name : String}
    (h : m.Wraps inner names f?) (hinner : inner.hasName name = true) : m.hasName name = true :=
  (h.hasName name).2 (.inr hinner)

/-! ## Captures -/

/-- A child of a name is captured before all that lies deeper. -/
theorem capture_of_find? {m found : Match} {name : String}
    (h : m.children.find? (·.hasName name) = some found) : m.capture name = some found := by
  unfold capture first
  cases hchildren : m.children with
  | nil =>
      rw [hchildren] at h
      cases h
  | cons child rest =>
      rw [hchildren] at h
      rw [firstAmong, h]

end Match

namespace Member

variable {m found : Match} {name : String}

theorem capture_of_find? (h : m.children.find? (·.hasName name) = some found) :
    capture name m = found.value := by
  rw [capture, Match.capture_of_find? h, Option.map_some, Option.getD_some]

theorem isLocal_capture (name : String) : (capture name).IsLocal := by
  intro m m' _ hchildren
  simp only [capture, Match.capture, Match.first, hchildren]

end Member

end Peg
