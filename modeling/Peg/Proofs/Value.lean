import Peg.Value

/-!
# Fields of objects

Entering a field keeps the fields sorted by key, replaces the field of its key and no other. An object
has for each key the last field that it is made of. Main statement: `Value.ofFields_spec`.
-/

namespace Peg

theorem lookup_cons_eq {α : Type} (n : String) (a : α) (rest : List (String × α)) (name : String) :
    ((n, a) :: rest).lookup name = if name = n then some a else rest.lookup name := by
  by_cases h : name = n
  · subst h
    simp
  · have hne : (name == n) = false := beq_false_of_ne h
    simp [List.lookup_cons, hne, h]

variable {key : String} {value : Value} {fields : List (String × Value)}

/-- Fields in the order of their keys, each key once. -/
def IsSorted (fields : List (String × Value)) : Prop := fields.Pairwise fun a b => a.1 < b.1

theorem mem_insertField {field : String × Value} (h : field ∈ insertField key value fields) :
    field = (key, value) ∨ field ∈ fields := by
  induction fields with
  | nil => exact .inl (List.mem_singleton.1 h)
  | cons first rest ih =>
      obtain ⟨k, v⟩ := first
      rw [insertField] at h
      split at h
      · exact List.mem_cons.1 h
      · split at h
        · exact (List.mem_cons.1 h).imp_right (List.mem_cons_of_mem _)
        · rcases List.mem_cons.1 h with rfl | h
          · exact .inr List.mem_cons_self
          · exact (ih h).imp_right (List.mem_cons_of_mem _)

theorem IsSorted.insertField (h : IsSorted fields) (key : String) (value : Value) :
    IsSorted (insertField key value fields) := by
  induction fields with
  | nil => exact List.pairwise_singleton _ _
  | cons first rest ih =>
      obtain ⟨k, v⟩ := first
      obtain ⟨hfirst, hrest⟩ := List.pairwise_cons.1 h
      rw [Peg.insertField]
      split
      · next hlt =>
          refine List.pairwise_cons.2 ⟨fun field hfield => ?_, h⟩
          rcases List.mem_cons.1 hfield with rfl | hfield
          · exact hlt
          · exact String.lt_trans hlt (hfirst field hfield)
      · next hlt =>
          split
          · next heq =>
              subst heq
              exact List.pairwise_cons.2 ⟨hfirst, hrest⟩
          · next hne =>
              refine List.pairwise_cons.2 ⟨fun field hfield => ?_, ih hrest⟩
              rcases mem_insertField hfield with rfl | hfield
              · by_cases hgt : k < key
                · exact hgt
                · exact absurd (String.le_antisymm (String.not_lt.1 hgt) (String.not_lt.1 hlt)) hne
              · exact hfirst field hfield

theorem lookup_insertField (other : String) :
    (insertField key value fields).lookup other =
      if other = key then some value else fields.lookup other := by
  induction fields with
  | nil => rw [insertField, lookup_cons_eq]
  | cons first rest ih =>
      obtain ⟨k, v⟩ := first
      rw [insertField]
      split
      · rw [lookup_cons_eq]
      · split
        · next heq =>
            subst heq
            rw [lookup_cons_eq, lookup_cons_eq]
            split <;> rfl
        · next hne =>
            rw [lookup_cons_eq, ih, lookup_cons_eq]
            by_cases h : other = key
            · subst h
              rw [if_neg hne, if_pos rfl, if_pos rfl]
            · rw [if_neg h, if_neg h]

namespace Value

theorem enter_spec {entered : List (String × Value)} (hsorted : IsSorted entered)
    (fields : List (String × Value)) :
    ∃ final, fields.foldl (fun sorted field => insertField field.1 field.2 sorted) entered = final ∧
      IsSorted final ∧
      ∀ key, final.lookup key = (fields.reverse.lookup key).or (entered.lookup key) := by
  induction fields generalizing entered with
  | nil => exact ⟨entered, rfl, hsorted, fun key => rfl⟩
  | cons field fields ih =>
      obtain ⟨final, hfinal, hsortedFinal, hlookup⟩ := ih (hsorted.insertField field.1 field.2)
      refine ⟨final, hfinal, hsortedFinal, fun key => ?_⟩
      rw [hlookup, lookup_insertField, List.reverse_cons, List.lookup_append, Option.or_assoc,
        lookup_cons_eq]
      split <;> rfl

/-- The fields of an object are sorted, and a key has the last value that was given to it. -/
theorem ofFields_spec (fields : List (String × Value)) :
    ∃ sorted, ofFields fields = .object sorted ∧ IsSorted sorted ∧
      ∀ key, sorted.lookup key = fields.reverse.lookup key := by
  obtain ⟨sorted, heq, hsorted, hlookup⟩ := enter_spec .nil fields
  refine ⟨sorted, by rw [ofFields, heq], hsorted, fun key => ?_⟩
  rw [hlookup, List.lookup_nil, Option.or_none]

end Value

end Peg
