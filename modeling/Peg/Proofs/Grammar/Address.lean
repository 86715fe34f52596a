import Peg.Proofs.Engine.Translate
import Peg.Proofs.Grammar.Accepted

/-!
# Where the rules of a definition stand

What an expression is lowered to does not depend on the rules before, up to the numbers: alone it
becomes the same rules, numbered from zero. So a rule of a grammar has an address, the definition that
it belongs to and its number there, and the address and the sizes of the definitions before tell its
number. Main statements: `Expr.lower_behind`, `lowerDefinitions_standing` and `addressOf?_eq_some_iff`.
-/

namespace Peg

/-! ## Rules under other numbers -/

section Renumber

variable {τ τ' τ'' : Type}

theorem Kind.renumber_renumber (kind : Kind τ) (f f' : Nat → Nat) (target : τ → τ')
    (target' : τ' → τ'') :
    (kind.renumber f target).renumber f' target' =
      kind.renumber (fun i => f' (f i)) fun r => target' (target r) := by
  cases kind <;> simp [renumber]

theorem Rule.renumber_renumber (rule : Rule τ) (f f' : Nat → Nat) (target : τ → τ')
    (target' : τ' → τ'') :
    (rule.renumber f target).renumber f' target' =
      rule.renumber (fun i => f' (f i)) fun r => target' (target r) := by
  simp only [renumber, Kind.renumber_renumber]

theorem Kind.renumber_congr {kind : Kind τ} {f f' : Nat → Nat} {target : τ → τ'}
    (h : ∀ i ∈ kind.children, f i = f' i) : kind.renumber f target = kind.renumber f' target := by
  cases kind with
  | terminal | text | ref | inherited => rfl
  | sequence parts | choice parts =>
      have hparts : parts.map f = parts.map f' := List.map_congr_left h
      simp only [renumber, hparts]
  | rep | ahead | notAhead | upTo | label =>
      simp only [renumber, h _ (List.mem_singleton.2 rfl)]

theorem Rule.renumber_congr {rule : Rule τ} {f f' : Nat → Nat} {target : τ → τ'}
    (h : ∀ i ∈ rule.kind.children, f i = f' i) : rule.renumber f target = rule.renumber f' target := by
  simp only [renumber, Kind.renumber_congr h]

theorem Expr.top?_map (e : Expr) (rule : String) (ids : List Nat) (f : Nat → Nat) :
    e.top? rule (ids.map f) = (e.top? rule ids).map (Rule.renumber f id) := by
  cases e with
  | pattern source =>
      simp only [top?]
      cases Pattern.anchored? source <;> rfl
  | range first last | seq es | choice es =>
      simp only [top?]
      split <;> rfl
  | rep body least most =>
      rcases ids with _ | ⟨i, _ | ⟨j, ids⟩⟩
      · rfl
      · simp only [top?, List.map_cons, List.map_nil]
        split <;> rfl
      · rfl
  | ahead | notAhead | upTo | label =>
      rcases ids with _ | ⟨i, _ | ⟨j, ids⟩⟩ <;> rfl
  | _ => rfl

end Renumber

/-! ## Lowering behind other rules -/

namespace Arena

def behind (arena front : Arena) : Arena :=
  front ++ arena.map (Rule.renumber (front.size + ·) id)

variable {arena front : Arena} {i : Nat}

theorem getElem?_behind_of_lt (hi : i < front.size) : (arena.behind front)[i]? = front[i]? :=
  Array.getElem?_append_left hi

theorem getElem?_behind (arena front : Arena) (i : Nat) :
    (arena.behind front)[front.size + i]? =
      arena[i]?.map (Rule.renumber (front.size + ·) id) := by
  unfold behind
  rw [Array.getElem?_append_right (by omega), Nat.add_sub_cancel_left, Array.getElem?_map]

@[simp] theorem size_behind : (arena.behind front).size = front.size + arena.size := by
  simp [behind]

@[simp] theorem behind_empty (front : Arena) : behind #[] front = front := by
  simp [behind]

theorem add_behind (rule : Rule String) :
    (arena.behind front).add (rule.renumber (front.size + ·) id) =
      ((arena.add rule).1.behind front, front.size + arena.size) := by
  simp [behind, add]

theorem modify_behind {f : Rule String → Rule String}
    (hf : ∀ (rule : Rule String) (number : Nat → Nat),
      f (rule.renumber number id) = (f rule).renumber number id) (i : Nat) :
    (arena.behind front).modify (front.size + i) f = behind (arena.modify i f) front := by
  apply Array.ext_getElem?
  intro j
  rw [Array.getElem?_modify]
  by_cases hj : j < front.size
  · rw [if_neg (by omega), getElem?_behind_of_lt hj, getElem?_behind_of_lt hj]
  · obtain ⟨k, rfl⟩ : ∃ k, j = front.size + k := ⟨j - front.size, by omega⟩
    rw [getElem?_behind, getElem?_behind, Array.getElem?_modify]
    by_cases hk : i = k
    · subst hk
      cases arena[i]? <;> simp [hf]
    · rw [if_neg (by omega), if_neg hk]

end Arena

section Lower

variable {grammar rule : String}

theorem Expr.lowerAll_behind {es : List Expr} {front : Arena}
    (hes : ∀ e ∈ es, ∀ {arena later : Arena} {id : Nat},
      e.lower grammar rule arena = .ok (later, id) →
        e.lower grammar rule (arena.behind front) = .ok (later.behind front, front.size + id))
    {arena later : Arena} {ids : List Nat}
    (h : Expr.lowerAll grammar rule arena es = .ok (later, ids)) :
    Expr.lowerAll grammar rule (arena.behind front) es =
      .ok (later.behind front, ids.map (front.size + ·)) := by
  induction es generalizing arena ids with
  | nil =>
      cases h
      rfl
  | cons e es ih =>
      obtain ⟨arena', id, ids', he, hrest, rfl⟩ := lowerAll_cons_iff.1 h
      exact lowerAll_cons_iff.2 ⟨_, _, _, hes e List.mem_cons_self he,
        ih (fun e' he' => hes e' (List.mem_cons_of_mem e he')) hrest, rfl⟩

/-- Other rules before do not matter but for the numbers. -/
theorem Expr.lower_behind {e : Expr} {arena later : Arena} {id : Nat}
    (h : e.lower grammar rule arena = .ok (later, id)) (front : Arena) :
    e.lower grammar rule (arena.behind front) = .ok (later.behind front, front.size + id) := by
  induction e using Expr.induct generalizing arena later id with
  | node e he ih =>
      obtain ⟨arena', ids, top, hparts, htop, hadd⟩ := (lower_node_iff he).1 h
      cases hadd
      have htop' : e.top? rule (ids.map (front.size + ·)) =
          some (top.renumber (front.size + ·) id) := by
        rw [top?_map, htop, Option.map_some]
      refine (lower_node_iff he).2 ⟨_, _, _, lowerAll_behind ih hparts, htop', Arena.add_behind top⟩
  | extended body extension ih =>
      obtain ⟨arena', hbody, rfl⟩ := lower_extended_iff.1 h
      exact lower_extended_iff.2 ⟨_, ih hbody, Arena.modify_behind (fun _ _ => rfl) id⟩

end Lower

/-! ## The rules of a definition -/

/-- The rules that a definition is lowered to on its own, none if there is something wrong with it. -/
def alone (grammar : String) (definition : String × Expr) : Arena :=
  match definition.2.lower grammar definition.1 #[] with
  | .ok (arena, id) => arena.modify id (Rule.named definition.1)
  | .error _ => #[]

theorem laidOut_alone (grammar : String) (definition : String × Expr) :
    LaidOut (alone grammar definition) := by
  unfold alone
  cases h : definition.2.lower grammar definition.1 #[] with
  | error fault => exact Arena.holds_empty.laid
  | ok lowered =>
      obtain ⟨arena, id⟩ := lowered
      have hsame : SameParts arena.size arena (arena.modify id (Rule.named definition.1)) :=
        sameParts_modify id fun _ => rfl
      exact (Expr.lower_spans Arena.holds_empty.laid h).1.congr hsame
        (Nat.le_of_eq Array.size_modify)

theorem alone_spec {grammar name : String} {e : Expr} {arena later : Arena} {id : Nat}
    (h : e.lower grammar name arena = .ok (later, id)) :
    later.modify id (Rule.named name) = (alone grammar (name, e)).behind arena ∧
      (alone grammar (name, e)).size = e.ruleCount := by
  have hreports (arena : Arena) :=
    (Expr.lower_reports { name := grammar } {} grammar name arena e).exists_ok_iff
  obtain ⟨⟨own, top⟩, hown⟩ := (hreports #[]).2 ((hreports arena).1 ⟨_, h⟩)
  have hbehind := Expr.lower_behind hown arena
  rw [Arena.behind_empty, h] at hbehind
  obtain ⟨rfl, rfl⟩ := Prod.mk.inj (Except.ok.inj hbehind)
  have halone : alone grammar (name, e) = own.modify top (Rule.named name) := by
    simp only [alone, hown]
  rw [halone]
  refine ⟨Arena.modify_behind (fun _ _ => rfl) top, ?_⟩
  rw [Array.size_modify, (Expr.lower_grows hown).1.size]
  exact Nat.zero_add _

def startOf : List (String × Expr) → String → Nat
  | [], _ => 0
  | (name, e) :: rest, name' => if name' = name then 0 else e.ruleCount + startOf rest name'

theorem lowerDefinitions_kept {grammar : String} {definitions : List (String × Expr)}
    {arena later : Arena} {defined defined' : List (String × Nat)}
    (h : lowerDefinitions grammar arena defined definitions = .ok (later, defined')) :
    later.size = arena.size + Expr.ruleCounts (definitions.map (·.2)) ∧
      ∀ i < arena.size, later[i]? = arena[i]? := by
  induction definitions generalizing arena defined with
  | nil =>
      cases h
      exact ⟨rfl, fun _ _ => rfl⟩
  | cons definition rest ih =>
      obtain ⟨name, e⟩ := definition
      obtain ⟨-, arena', id, he, hrest⟩ := lowerDefinitions_cons_iff.1 h
      obtain ⟨hbehind, hsize⟩ := alone_spec he
      rw [hbehind] at hrest
      obtain ⟨hlater, hkept⟩ := ih hrest
      rw [Arena.size_behind] at hlater hkept
      refine ⟨by rw [hlater, hsize, List.map_cons, Expr.ruleCounts, Nat.add_assoc], ?_⟩
      intro i hi
      rw [hkept i (by omega), Arena.getElem?_behind_of_lt hi]

/-- The rules of each definition stand behind those of the definitions before. -/
theorem lowerDefinitions_standing {grammar : String} {definitions : List (String × Expr)}
    {arena later : Arena} {defined defined' : List (String × Nat)}
    (h : lowerDefinitions grammar arena defined definitions = .ok (later, defined'))
    (hnames : (definitions.map (·.1)).Nodup) {name : String} {e : Expr}
    (hmem : (name, e) ∈ definitions) {k : Nat} (hk : k < e.ruleCount) :
    later[arena.size + (startOf definitions name + k)]? =
      (alone grammar (name, e))[k]?.map
        (Rule.renumber (fun i => arena.size + (startOf definitions name + i)) id) := by
  induction definitions generalizing arena defined with
  | nil => cases hmem
  | cons definition rest ih =>
      obtain ⟨first, e'⟩ := definition
      obtain ⟨hnew, hdistinct⟩ := List.nodup_cons.1 hnames
      obtain ⟨-, arena', id, he, hrest⟩ := lowerDefinitions_cons_iff.1 h
      obtain ⟨hbehind, hsize⟩ := alone_spec he
      rw [hbehind] at hrest
      simp only [startOf]
      rcases List.mem_cons.1 hmem with heq | hrest'
      · cases heq
        simp only [if_pos, Nat.zero_add]
        rw [(lowerDefinitions_kept hrest).2 _ (by rw [Arena.size_behind]; omega),
          Arena.getElem?_behind]
      · have hne : name ≠ first := by
          rintro rfl
          exact hnew (List.mem_map.2 ⟨_, hrest', rfl⟩)
        have hstanding := ih hrest hdistinct hrest'
        rw [Arena.size_behind, hsize] at hstanding
        simp only [if_neg hne]
        simpa only [Nat.add_assoc] using hstanding

/-! ## Addresses -/

/-- The definition that a rule belongs to and the number that the rule has there. -/
def addressOf? : List (String × Expr) → Nat → Option (String × Nat)
  | [], _ => none
  | (name, e) :: rest, i =>
    if i < e.ruleCount then some (name, i) else addressOf? rest (i - e.ruleCount)

variable {definitions : List (String × Expr)} {i : Nat}

theorem addressOf?_eq_some_iff (hnames : (definitions.map (·.1)).Nodup) {name : String} {k : Nat} :
    addressOf? definitions i = some (name, k) ↔
      ∃ e, (name, e) ∈ definitions ∧ k < e.ruleCount ∧ i = startOf definitions name + k := by
  induction definitions generalizing i with
  | nil => simp [addressOf?]
  | cons definition rest ih =>
      obtain ⟨first, e⟩ := definition
      obtain ⟨hnew, hdistinct⟩ := List.nodup_cons.1 hnames
      have hfirst (e' : Expr) : (first, e') ∉ rest := fun h => hnew (List.mem_map.2 ⟨_, h, rfl⟩)
      simp only [addressOf?, startOf]
      by_cases hname : name = first
      · subst hname
        simp only [List.mem_cons, Prod.mk.injEq, true_and, hfirst, or_false, exists_eq_left, if_pos,
          Nat.zero_add]
        by_cases hi : i < e.ruleCount
        · simp only [if_pos hi, Option.some.injEq, Prod.mk.injEq, true_and]
          omega
        · rw [if_neg hi, ih hdistinct]
          simp only [hfirst, false_and, exists_false, false_iff]
          omega
      · simp only [List.mem_cons, Prod.mk.injEq, hname, false_and, false_or, if_false]
        by_cases hi : i < e.ruleCount
        · simp only [if_pos hi, Option.some.injEq, Prod.mk.injEq, Ne.symm hname, false_and, false_iff,
            not_exists, not_and]
          intro e' _ _
          omega
        · rw [if_neg hi, ih hdistinct]
          apply exists_congr
          intro e'
          apply and_congr_right
          intro _
          apply and_congr_right
          intro _
          omega

theorem addressOf?_eq_none_iff :
    addressOf? definitions i = none ↔ Expr.ruleCounts (definitions.map (·.2)) ≤ i := by
  induction definitions generalizing i with
  | nil => simp [addressOf?, Expr.ruleCounts]
  | cons definition rest ih =>
      obtain ⟨name, e⟩ := definition
      simp only [addressOf?, List.map_cons, Expr.ruleCounts]
      by_cases hi : i < e.ruleCount
      · simp only [if_pos hi, reduceCtorEq, false_iff]
        omega
      · rw [if_neg hi, ih]
        omega

end Peg
