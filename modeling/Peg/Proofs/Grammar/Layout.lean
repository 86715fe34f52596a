import Mathlib.Logic.Relation
import Peg.Proofs.Grammar.Nodes

/-!
# The layout of lowered rules

The rules that an expression is lowered to stand next to each other, the one at the top last, and so
do those of its parts. A rule therefore contains just the rules from some number up to its own, and
no two parts of a rule have a rule in common. Main statements: `Expr.lower_grows`, an expression adds
one rule for each of its nodes and touches no other, `Expr.lower_spans` and `lowerDefinitions_holds`.
-/

namespace Peg

section Contains

variable {τ : Type}

/-- The rule `i` is made of the rule `j`, among others. -/
def MadeOf (rules : Array (Rule τ)) (i j : Nat) : Prop :=
  ∃ rule, rules[i]? = some rule ∧ j ∈ rule.kind.children

/-- The rule `j` is the rule `i`, or one that this is made of directly or through others. -/
def Contains (rules : Array (Rule τ)) : Nat → Nat → Prop := Relation.ReflTransGen (MadeOf rules)

/-- The two rules have no rule in common. -/
def Apart (rules : Array (Rule τ)) (i j : Nat) : Prop :=
  ∀ k, Contains rules i k → ¬ Contains rules j k

/-- The rule contains those from `first` up to itself and no others. -/
def Spans (rules : Array (Rule τ)) (first i : Nat) : Prop :=
  ∀ j, Contains rules i j ↔ first ≤ j ∧ j ≤ i

/-- The rules of these numbers and what they contain stand one after the other, from `first` up to
but not including `last`. -/
def InRow (rules : Array (Rule τ)) : (first : Nat) → List Nat → (last : Nat) → Prop
  | first, [], last => first = last
  | first, i :: is, last => Spans rules first i ∧ InRow rules (i + 1) is last

/-- Every rule stands right behind the row of the rules that it is made of. -/
def LaidOut (rules : Array (Rule τ)) : Prop :=
  ∀ (i : Nat) (rule : Rule τ), rules[i]? = some rule →
    ∃ first, InRow rules first rule.kind.children i

variable {rules : Array (Rule τ)} {first last i j : Nat} {is : List Nat} {rule : Rule τ}

theorem contains_iff (hi : rules[i]? = some rule) :
    Contains rules i j ↔ j = i ∨ ∃ c ∈ rule.kind.children, Contains rules c j := by
  rw [Contains, Relation.ReflTransGen.cases_head_iff, eq_comm]
  apply or_congr_right
  apply exists_congr
  intro c
  apply and_congr_left
  intro _
  simp [MadeOf, hi]

theorem Spans.first_le (h : Spans rules first i) : first ≤ i :=
  ((h i).1 .refl).1

theorem InRow.first_le (h : InRow rules first is last) : first ≤ last := by
  induction is generalizing first with
  | nil => exact Nat.le_of_eq h
  | cons i is ih =>
      have hfirst := h.1.first_le
      have hrest := ih h.2
      omega

theorem InRow.exists_contains_iff (h : InRow rules first is last) :
    (∃ i ∈ is, Contains rules i j) ↔ first ≤ j ∧ j < last := by
  induction is generalizing first with
  | nil =>
      have heq : first = last := h
      simp only [List.not_mem_nil, false_and, exists_false, false_iff]
      omega
  | cons i is ih =>
      have hspans := h.1 j
      have hfirst := h.1.first_le
      have hlast := h.2.first_le
      simp only [List.mem_cons, or_and_right, exists_or, exists_eq_left, ih h.2, hspans]
      omega

theorem InRow.lt_last (h : InRow rules first is last) (hi : i ∈ is) : i < last :=
  (h.exists_contains_iff.1 ⟨i, hi, .refl⟩).2

theorem InRow.pairwise (h : InRow rules first is last) : is.Pairwise (Apart rules) := by
  induction is generalizing first with
  | nil => exact .nil
  | cons i is ih =>
      refine .cons ?_ (ih h.2)
      intro c hc k hik hck
      have hle := ((h.1 k).1 hik).2
      have hlt := (h.2.exists_contains_iff.1 ⟨c, hc, hck⟩).1
      omega

theorem inRow_append {is' : List Nat} :
    InRow rules first (is ++ is') last ↔
      ∃ middle, InRow rules first is middle ∧ InRow rules middle is' last := by
  induction is generalizing first with
  | nil => simp [InRow]
  | cons i is ih => simp [InRow, ih, and_assoc]

theorem InRow.spans (h : InRow rules first rule.kind.children i) (hi : rules[i]? = some rule) :
    Spans rules first i := by
  intro j
  have hle := h.first_le
  rw [contains_iff hi, h.exists_contains_iff]
  omega

theorem LaidOut.lt (h : LaidOut rules) (hi : rules[i]? = some rule) (hj : j ∈ rule.kind.children) :
    j < i := by
  obtain ⟨first, hrow⟩ := h i rule hi
  exact hrow.lt_last hj

/-! ## Rules that are made of the same -/

variable {τ' : Type} {rules' : Array (Rule τ')} {n : Nat}

/-- The rules before `n` are made of the same rules in both. -/
def SameParts (n : Nat) (rules : Array (Rule τ)) (rules' : Array (Rule τ')) : Prop :=
  ∀ i < n, rules'[i]?.map (·.kind.children) = rules[i]?.map (·.kind.children)

theorem SameParts.symm (h : SameParts n rules rules') : SameParts n rules' rules :=
  fun i hi => (h i hi).symm

theorem SameParts.madeOf_iff (h : SameParts n rules rules') (hi : i < n) :
    MadeOf rules' i j ↔ MadeOf rules i j := by
  have hparts := h i hi
  cases hrule : rules[i]? <;> cases hrule' : rules'[i]? <;> simp_all [MadeOf]

theorem SameParts.contains (h : SameParts n rules rules')
    (hlt : ∀ i < n, ∀ j, MadeOf rules i j → j < i) (hi : i < n) (hj : Contains rules i j) :
    Contains rules' i j := by
  induction hj using Relation.ReflTransGen.head_induction_on with
  | refl => exact .refl
  | @head a c hac _ ih =>
      have hc := hlt a hi c hac
      exact .head ((h.madeOf_iff hi).2 hac) (ih (by omega))

theorem SameParts.contains_iff (h : SameParts n rules rules')
    (hlt : ∀ i < n, ∀ j, MadeOf rules i j → j < i) (hi : i < n) :
    Contains rules' i j ↔ Contains rules i j := by
  constructor
  · intro hj
    apply h.symm.contains _ hi hj
    intro a ha c hac
    exact hlt a ha c ((h.madeOf_iff ha).1 hac)
  · exact h.contains hlt hi

theorem LaidOut.lt_of_madeOf (h : LaidOut rules) (hj : MadeOf rules i j) : j < i := by
  obtain ⟨rule, hi, hmem⟩ := hj
  exact h.lt hi hmem

theorem Spans.congr (hrow : Spans rules first i) (h : SameParts n rules rules')
    (hlaid : LaidOut rules) (hi : i < n) : Spans rules' first i := by
  intro j
  rw [h.contains_iff (fun _ _ _ hj => hlaid.lt_of_madeOf hj) hi]
  exact hrow j

theorem InRow.congr (hrow : InRow rules first is last) (h : SameParts n rules rules')
    (hlaid : LaidOut rules) (hlast : last ≤ n) : InRow rules' first is last := by
  induction is generalizing first with
  | nil => exact hrow
  | cons i is ih =>
      have hi : i < last := hrow.lt_last List.mem_cons_self
      exact ⟨hrow.1.congr h hlaid (by omega), ih hrow.2⟩

theorem LaidOut.congr (hlaid : LaidOut rules) (h : SameParts n rules rules')
    (hn : rules'.size ≤ n) : LaidOut rules' := by
  intro i rule' hi'
  have hlt : i < n := Nat.lt_of_lt_of_le (Array.getElem?_eq_some_iff.1 hi').1 hn
  have hparts := h i hlt
  rw [hi'] at hparts
  cases hi : rules[i]? with
  | none => simp [hi] at hparts
  | some rule =>
      simp only [hi, Option.map_some, Option.some.injEq] at hparts
      obtain ⟨first, hrow⟩ := hlaid i rule hi
      rw [hparts]
      exact ⟨first, hrow.congr h hlaid (by omega)⟩

theorem sameParts_push (rule : Rule τ) : SameParts rules.size rules (rules.push rule) := by
  intro i hi
  rw [Array.getElem?_push, if_neg (by omega)]

theorem sameParts_modify (id : Nat) {f : Rule τ → Rule τ} (hf : ∀ rule, (f rule).kind = rule.kind) :
    SameParts n rules (rules.modify id f) := by
  intro i _
  rw [Array.getElem?_modify]
  by_cases heq : id = i
  · cases rules[i]? <;> simp [heq, hf]
  · simp [heq]

theorem LaidOut.push (hlaid : LaidOut rules) (hrow : InRow rules first rule.kind.children rules.size) :
    LaidOut (rules.push rule) := by
  intro i rule' hi
  rw [Array.getElem?_push] at hi
  by_cases heq : i = rules.size
  · rw [if_pos heq] at hi
    cases hi
    subst heq
    exact ⟨first, hrow.congr (sameParts_push rule) hlaid (Nat.le_refl _)⟩
  · rw [if_neg heq] at hi
    have hlt := (Array.getElem?_eq_some_iff.1 hi).1
    obtain ⟨first', hrow'⟩ := hlaid i rule' hi
    exact ⟨first', hrow'.congr (sameParts_push rule) hlaid (Nat.le_of_lt hlt)⟩

theorem InRow.spans_push (hrow : InRow rules first rule.kind.children rules.size)
    (hlaid : LaidOut rules) : Spans (rules.push rule) first rules.size :=
  (hrow.congr (sameParts_push rule) hlaid (Nat.le_refl _)).spans (by simp)

end Contains

/-! ## What an expression adds -/

mutual

def Expr.ruleCount : Expr → Nat
  | .seq parts => ruleCounts parts + 1
  | .choice options => ruleCounts options + 1
  | .rep body _ _ => body.ruleCount + 1
  | .ahead body => body.ruleCount + 1
  | .notAhead body => body.ruleCount + 1
  | .upTo stop => stop.ruleCount + 1
  | .label body _ => body.ruleCount + 1
  | .extended body _ => body.ruleCount
  | _ => 1

def Expr.ruleCounts : List Expr → Nat
  | [] => 0
  | e :: es => e.ruleCount + ruleCounts es

end

theorem Expr.ruleCount_node {e : Expr} (he : e.IsNode) :
    e.ruleCount = Expr.ruleCounts e.parts + 1 := by
  cases e with
  | extended body extension => exact absurd rfl (he body extension)
  | _ => simp [Expr.ruleCount, Expr.ruleCounts, Expr.parts]

theorem Expr.ruleCount_pos (e : Expr) : 0 < e.ruleCount := by
  induction e using Expr.induct with
  | node e he _ =>
      rw [ruleCount_node he]
      omega
  | extended body extension ih => exact ih

/-- Behind the rules of the arena come `count` others without names. -/
structure Arena.Grows (arena : Arena) (count : Nat) (later : Arena) : Prop where
  size : later.size = arena.size + count
  kept : ∀ i < arena.size, later[i]? = arena[i]?
  unnamed : ∀ (i : Nat) (rule : Rule String), arena.size ≤ i → later[i]? = some rule →
    rule.name = none

namespace Arena.Grows

variable {arena later last : Arena} {count count' : Nat}

theorem zero (arena : Arena) : arena.Grows 0 arena where
  size := rfl
  kept _ _ := rfl
  unnamed i rule hi hrule := by
    have hlt := (Array.getElem?_eq_some_iff.1 hrule).1
    omega

theorem trans (h : arena.Grows count later) (h' : later.Grows count' last) :
    arena.Grows (count + count') last where
  size := by rw [h'.size, h.size, Nat.add_assoc]
  kept i hi := by
    have hle := h.size
    rw [h'.kept i (by omega), h.kept i hi]
  unnamed i rule hi hrule := by
    by_cases hlt : i < later.size
    · rw [h'.kept i hlt] at hrule
      exact h.unnamed i rule hi hrule
    · exact h'.unnamed i rule (by omega) hrule

theorem add (h : arena.Grows count later) {rule : Rule String} (hname : rule.name = none) :
    arena.Grows (count + 1) (later.add rule).1 := by
  apply h.trans
  constructor
  · exact Array.size_push rule
  · intro i hi
    simp only [Arena.add]
    rw [Array.getElem?_push, if_neg (by omega)]
  · intro i rule' hi hrule
    have hlt := (Array.getElem?_eq_some_iff.1 hrule).1
    simp only [Arena.add, Array.size_push] at hlt
    obtain rfl : i = later.size := by omega
    simp only [Arena.add] at hrule
    rw [Array.getElem?_push, if_pos rfl] at hrule
    cases hrule
    exact hname

theorem modify (h : arena.Grows count later) {id : Nat} (hid : arena.size ≤ id)
    {f : Rule String → Rule String} (hf : ∀ rule, (f rule).name = rule.name) :
    arena.Grows count (later.modify id f) where
  size := by rw [Array.size_modify, h.size]
  kept i hi := by rw [Array.getElem?_modify, if_neg (by omega), h.kept i hi]
  unnamed i rule hi hrule := by
    rw [Array.getElem?_modify] at hrule
    split at hrule
    · obtain ⟨rule', hrule', rfl⟩ := Option.map_eq_some_iff.1 hrule
      rw [hf]
      exact h.unnamed i rule' hi hrule'
    · exact h.unnamed i rule hi hrule

theorem sameParts (h : arena.Grows count later) : SameParts arena.size arena later := by
  intro i hi
  rw [h.kept i hi]

end Arena.Grows

section Lower

variable {grammar rule : String}

theorem Expr.lowerAll_grows {es : List Expr}
    (hes : ∀ e ∈ es, ∀ {arena later : Arena} {id : Nat},
      e.lower grammar rule arena = .ok (later, id) →
        arena.Grows e.ruleCount later ∧ id + 1 = later.size)
    {arena later : Arena} {ids : List Nat}
    (h : Expr.lowerAll grammar rule arena es = .ok (later, ids)) :
    arena.Grows (Expr.ruleCounts es) later := by
  induction es generalizing arena ids with
  | nil =>
      cases h
      exact .zero later
  | cons e es ih =>
      obtain ⟨arena', id, ids', he, hrest, rfl⟩ := lowerAll_cons_iff.1 h
      have hfirst := (hes e List.mem_cons_self he).1
      exact hfirst.trans (ih (fun e' he' => hes e' (List.mem_cons_of_mem e he')) hrest)

/-- An expression adds one rule for each of its nodes, that of the top last. -/
theorem Expr.lower_grows {e : Expr} {arena later : Arena} {id : Nat}
    (h : e.lower grammar rule arena = .ok (later, id)) :
    arena.Grows e.ruleCount later ∧ id + 1 = later.size := by
  induction e using Expr.induct generalizing arena later id with
  | node e he ih =>
      obtain ⟨arena', ids, top, hparts, htop, hadd⟩ := (lower_node_iff he).1 h
      have hgrows := lowerAll_grows ih hparts
      have hname := (top?_eq_some htop (length_of_lowerAll hparts)).2.1
      cases hadd
      rw [ruleCount_node he]
      exact ⟨hgrows.add hname, (Array.size_push top).symm⟩
  | extended body extension ih =>
      obtain ⟨arena', hbody, rfl⟩ := lower_extended_iff.1 h
      obtain ⟨hgrows, hid⟩ := ih hbody
      have hsize := hgrows.size
      have hpos := body.ruleCount_pos
      rw [Array.size_modify]
      exact ⟨hgrows.modify (by omega) fun _ => rfl, hid⟩

/-! ## Where the rules of an expression stand -/

theorem Expr.lowerAll_inRow {es : List Expr}
    (hes : ∀ e ∈ es, ∀ {arena later : Arena} {id : Nat}, LaidOut arena →
      e.lower grammar rule arena = .ok (later, id) →
        LaidOut later ∧ Spans later arena.size id)
    {arena later : Arena} {ids : List Nat} (hlaid : LaidOut arena)
    (h : Expr.lowerAll grammar rule arena es = .ok (later, ids)) :
    LaidOut later ∧ InRow later arena.size ids later.size := by
  induction es generalizing arena ids with
  | nil =>
      cases h
      exact ⟨hlaid, rfl⟩
  | cons e es ih =>
      obtain ⟨arena', id, ids', he, hrest, rfl⟩ := lowerAll_cons_iff.1 h
      obtain ⟨hlaid', hspans⟩ := hes e List.mem_cons_self hlaid he
      obtain ⟨-, hid⟩ := lower_grows he
      have hgrows := lowerAll_grows (fun _ _ => lower_grows) hrest
      obtain ⟨hlater, hrow⟩ :=
        ih (fun e' he' => hes e' (List.mem_cons_of_mem e he')) hlaid' hrest
      refine ⟨hlater, ?_, ?_⟩
      · exact hspans.congr hgrows.sameParts hlaid' (by omega)
      · rw [hid]
        exact hrow

/-- The rules of an expression stand behind those of the arena, and that of the top spans them. -/
theorem Expr.lower_spans {e : Expr} {arena later : Arena} {id : Nat} (hlaid : LaidOut arena)
    (h : e.lower grammar rule arena = .ok (later, id)) :
    LaidOut later ∧ Spans later arena.size id := by
  induction e using Expr.induct generalizing arena later id with
  | node e he ih =>
      obtain ⟨arena', ids, top, hparts, htop, hadd⟩ := (lower_node_iff he).1 h
      obtain ⟨hlaid', hrow⟩ := lowerAll_inRow ih hlaid hparts
      have hchildren := (top?_eq_some htop (length_of_lowerAll hparts)).1
      rw [← hchildren] at hrow
      cases hadd
      exact ⟨hlaid'.push hrow, hrow.spans_push hlaid'⟩
  | extended body extension ih =>
      obtain ⟨arena', hbody, rfl⟩ := lower_extended_iff.1 h
      obtain ⟨hlaid', hspans⟩ := ih hlaid hbody
      obtain ⟨-, hid⟩ := lower_grows hbody
      have hsame : SameParts arena'.size arena' (arena'.modify id (·.extend extension)) :=
        sameParts_modify id fun _ => rfl
      exact ⟨hlaid'.congr hsame (Nat.le_of_eq Array.size_modify),
        hspans.congr hsame hlaid' (by omega)⟩

end Lower

/-! ## Definitions -/

/-- The rules of definitions stand one after the other, and just those at the top have names. -/
structure Arena.Holds (arena : Arena) (defined : List (String × Nat)) : Prop where
  laid : LaidOut arena
  row : InRow arena 0 (defined.map (·.2)) arena.size
  named : ∀ (i : Nat) (rule : Rule String), arena[i]? = some rule →
    ∀ name, rule.name = some name ↔ (name, i) ∈ defined

theorem Arena.holds_empty : Arena.Holds #[] [] where
  laid i rule hi := by simp at hi
  row := rfl
  named i rule hi := by simp at hi

theorem Arena.Holds.define {grammar name : String} {e : Expr} {arena later : Arena}
    {defined : List (String × Nat)} {id : Nat} (h : arena.Holds defined)
    (hlower : e.lower grammar name arena = .ok (later, id)) :
    Arena.Holds (later.modify id (Rule.named name)) (defined ++ [(name, id)]) := by
  obtain ⟨hgrows, hid⟩ := Expr.lower_grows hlower
  obtain ⟨hlaid, hspans⟩ := Expr.lower_spans h.laid hlower
  have hsame : SameParts later.size later (later.modify id (Rule.named name)) :=
    sameParts_modify id fun _ => rfl
  have hsize := hgrows.size
  have hpos := e.ruleCount_pos
  have hlt (entry : String × Nat) (hentry : entry ∈ defined) : entry.2 < arena.size :=
    h.row.lt_last (List.mem_map_of_mem hentry)
  constructor
  · exact hlaid.congr hsame (Nat.le_of_eq Array.size_modify)
  · rw [List.map_append, inRow_append, Array.size_modify]
    have hrow := h.row.congr hgrows.sameParts h.laid (Nat.le_refl _)
    exact ⟨arena.size, hrow.congr hsame hlaid (by omega), hspans.congr hsame hlaid (by omega), hid⟩
  · intro i rule hi name'
    have hold : (name', i) ∈ defined → i < arena.size := hlt (name', i)
    rw [Array.getElem?_modify] at hi
    rw [List.mem_append, List.mem_singleton, Prod.mk.injEq]
    by_cases heq : id = i
    · rw [if_pos heq] at hi
      obtain ⟨rule', -, rfl⟩ := Option.map_eq_some_iff.1 hi
      have hnot : (name', i) ∉ defined := fun hmem => by
        have := hold hmem
        omega
      simp [Rule.named, hnot, heq, eq_comm]
    · rw [if_neg heq] at hi
      rw [or_iff_left (fun hmem => heq hmem.2.symm)]
      by_cases hi' : i < arena.size
      · rw [hgrows.kept i hi'] at hi
        exact h.named i rule hi name'
      · rw [hgrows.unnamed i rule (by omega) hi]
        simp only [reduceCtorEq, false_iff]
        exact fun hmem => hi' (hold hmem)

theorem lowerDefinitions_holds {grammar : String} {definitions : List (String × Expr)}
    {arena later : Arena} {defined defined' : List (String × Nat)} (h : arena.Holds defined)
    (hlower : lowerDefinitions grammar arena defined definitions = .ok (later, defined')) :
    later.Holds defined' := by
  induction definitions generalizing arena defined with
  | nil =>
      cases hlower
      exact h
  | cons definition rest ih =>
      obtain ⟨name, e⟩ := definition
      obtain ⟨-, arena', id, he, hrest⟩ := lowerDefinitions_cons_iff.1 hlower
      exact ih (h.define he) hrest

end Peg
