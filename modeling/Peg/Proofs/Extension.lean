import Mathlib.Data.List.Induction
import Mathlib.Data.List.Nodup
import Peg.Extension
import Peg.Proofs.Value

/-!
# Members of merged extensions

A member that is inserted replaces one of its name, and of two extensions that are merged the outer
one wins. Names keep the order in which they first appear, each of them once, and it makes no
difference in which order a row of extensions is merged. Main statements: `Extension.get?_merge`,
`Extension.names_merge` and `Extension.merge_assoc`.
-/

namespace Peg.Extension

variable {e inner outer : Extension} {name other : String} {member member' : Member}
  {ms rest : List (String × Member)}

/-! ## Tables of members -/

theorem lookup_insertMember :
    (insertMember name member ms).lookup other =
      if other = name then some member else ms.lookup other := by
  induction ms with
  | nil => exact lookup_cons_eq name member [] other
  | cons entry rest ih =>
      obtain ⟨n, m⟩ := entry
      by_cases hn : n = name
      · subst hn
        simp only [insertMember, if_pos, lookup_cons_eq]
        split <;> rfl
      · simp only [insertMember, if_neg hn, lookup_cons_eq, ih]
        by_cases heq : other = n
        · subst heq
          simp [hn]
        · simp [heq]

theorem insertMember_of_notMem (h : name ∉ ms.map (·.1)) :
    insertMember name member ms = ms ++ [(name, member)] := by
  induction ms with
  | nil => rfl
  | cons entry rest ih =>
      obtain ⟨n, m⟩ := entry
      obtain ⟨hne, hrest⟩ := not_or.1 (mt List.mem_cons.2 h)
      rw [insertMember, if_neg (Ne.symm hne), ih hrest, List.cons_append]

theorem insertMember_insertMember :
    insertMember name member' (insertMember name member ms) = insertMember name member' ms := by
  induction ms with
  | nil => simp [insertMember]
  | cons entry rest ih =>
      obtain ⟨n, m⟩ := entry
      by_cases hn : n = name
      · simp [insertMember, hn]
      · simp [insertMember, hn, ih]

theorem insertMember_comm (hne : other ≠ name) (hmem : name ∈ ms.map (·.1)) :
    insertMember name member (insertMember other member' ms) =
      insertMember other member' (insertMember name member ms) := by
  induction ms with
  | nil => cases hmem
  | cons entry rest ih =>
      obtain ⟨n, m⟩ := entry
      by_cases hn : n = name
      · subst hn
        simp [insertMember, Ne.symm hne]
      · have hrest : name ∈ rest.map (·.1) := by simpa [Ne.symm hn] using hmem
        by_cases hother : n = other
        · subst hother
          simp [insertMember, hn]
        · simp [insertMember, hn, hother, ih hrest]

/-! ## Inserting and merging -/

theorem get?_insert :
    (e.insert name member).get? other = if other = name then some member else e.get? other :=
  lookup_insertMember

theorem names_insert :
    (e.insert name member).names = if name ∈ e.names then e.names else e.names ++ [name] :=
  names_insertMember name member e.members

theorem merge_cons (h : (((name, member) :: rest).map (·.1)).Nodup) :
    inner.merge ⟨(name, member) :: rest, h⟩ =
      (inner.insert name member).merge ⟨rest, (List.nodup_cons.1 h).2⟩ := rfl

/-- The members of the outer extension win. -/
theorem get?_merge : (inner.merge outer).get? name = (outer.get? name).or (inner.get? name) := by
  obtain ⟨members, hdistinct⟩ := outer
  induction members generalizing inner with
  | nil => rfl
  | cons entry rest ih =>
      obtain ⟨n, m⟩ := entry
      obtain ⟨hnew, hrest⟩ := List.nodup_cons.1 hdistinct
      rw [merge_cons, ih hrest, get?_insert]
      by_cases heq : name = n
      · subst heq
        have hnone : rest.lookup name = none := by
          rw [List.lookup_eq_none_iff]
          rintro ⟨n, m⟩ hentry
          have hne : name ≠ n := by
            rintro rfl
            exact hnew (List.mem_map.2 ⟨_, hentry, rfl⟩)
          simpa using hne
        simp [get?, hnone]
      · simp [get?, lookup_cons_eq, heq]

/-! ## Names -/

theorem eraseDups_of_nodup {names : List String} (h : names.Nodup) : names.eraseDups = names := by
  induction names with
  | nil => rfl
  | cons n rest ih =>
      obtain ⟨hnew, hrest⟩ := List.nodup_cons.1 h
      have hfilter : rest.filter (fun other => !other == n) = rest := by
        refine List.filter_eq_self.2 fun other hother => ?_
        have hne : other ≠ n := fun heq => hnew (heq ▸ hother)
        simpa using hne
      rw [List.eraseDups_cons, hfilter, ih hrest]

theorem nodup_eraseDups (names : List String) : names.eraseDups.Nodup := by
  induction hlength : names.length using Nat.strongRecOn generalizing names with
  | ind length ih =>
      cases names with
      | nil => exact List.nodup_nil
      | cons n rest =>
          have hshorter : (rest.filter fun other => !other == n).length < length := by
            rw [← hlength]
            exact Nat.lt_succ_of_le (List.length_filter_le _ _)
          rw [List.eraseDups_cons]
          refine List.nodup_cons.2 ⟨?_, ih _ hshorter _ rfl⟩
          simp

theorem eraseDups_eraseDups_append (front back : List String) :
    (front.eraseDups ++ back).eraseDups = (front ++ back).eraseDups := by
  have hremove : back.removeAll front.eraseDups = back.removeAll front := by
    simp [List.removeAll]
  rw [List.eraseDups_append, List.eraseDups_append, hremove,
    eraseDups_of_nodup (nodup_eraseDups front)]

theorem eraseDups_append_cons (names rest : List String) (name : String) :
    (names ++ name :: rest).eraseDups =
      ((if name ∈ names then names else names ++ [name]) ++ rest).eraseDups := by
  split
  · next hmem =>
      have hremove : (name :: rest).removeAll names = rest.removeAll names := by
        simp [List.removeAll, hmem]
      rw [List.eraseDups_append, List.eraseDups_append, hremove]
  · rw [List.append_assoc, List.singleton_append]

/-- The names of merged extensions, each where it first appears. -/
theorem names_merge : (inner.merge outer).names = (inner.names ++ outer.names).eraseDups := by
  obtain ⟨members, hdistinct⟩ := outer
  induction members generalizing inner with
  | nil =>
      have hnames : names ⟨[], hdistinct⟩ = [] := rfl
      rw [hnames, List.append_nil]
      exact (eraseDups_of_nodup inner.distinct).symm
  | cons entry rest ih =>
      obtain ⟨n, m⟩ := entry
      have hnames : names ⟨(n, m) :: rest, hdistinct⟩ = n :: rest.map (·.1) := rfl
      rw [merge_cons, ih, names_insert, hnames, eraseDups_append_cons]
      rfl

theorem get?_eq_none_iff : e.get? name = none ↔ name ∉ e.names := by
  rw [get?, List.lookup_eq_none_iff, names, List.mem_map]
  constructor
  · rintro h ⟨entry, hentry, rfl⟩
    simpa using h entry hentry
  · intro h entry hentry
    simpa using fun heq => h ⟨entry, hentry, heq.symm⟩

/-! ## Merging in any order -/

theorem merge_eq_append (h : (inner.names ++ outer.names).Nodup) :
    (inner.merge outer).members = inner.members ++ outer.members := by
  obtain ⟨members, hdistinct⟩ := outer
  induction members generalizing inner with
  | nil => simp [merge]
  | cons entry rest ih =>
      obtain ⟨n, m⟩ := entry
      have hsplit : (inner.names ++ [n] ++ rest.map (·.1)).Nodup := by simpa [names] using h
      have hnew : n ∉ inner.names := fun hmem =>
        (List.nodup_append.1 hsplit.of_append_left).2.2 n hmem n List.mem_cons_self rfl
      have hnames : (inner.insert n m).names = inner.names ++ [n] := by
        rw [names_insert, if_neg hnew]
      have hmembers : (inner.insert n m).members = inner.members ++ [(n, m)] :=
        insertMember_of_notMem hnew
      rw [merge_cons, ih _ (by rwa [hnames]), hmembers, List.append_assoc, List.singleton_append]

theorem empty_merge : merge {} e = e := Extension.ext (merge_eq_append e.distinct)

theorem insert_insert : (e.insert name member).insert name member' = e.insert name member' :=
  Extension.ext insertMember_insertMember

theorem insert_comm (hne : other ≠ name) (hmem : name ∈ e.names) :
    (e.insert other member').insert name member = (e.insert name member).insert other member' :=
  Extension.ext (insertMember_comm hne hmem)

theorem insert_merge (hmem : name ∈ inner.names) (hnew : name ∉ outer.names) :
    (inner.merge outer).insert name member = (inner.insert name member).merge outer := by
  obtain ⟨members, hdistinct⟩ := outer
  induction members generalizing inner with
  | nil => rfl
  | cons entry rest ih =>
      obtain ⟨n, m⟩ := entry
      obtain ⟨hne, hrest⟩ := not_or.1 (mt List.mem_cons.2 hnew)
      have hkept : name ∈ (inner.insert n m).names := by
        rw [names_insert]
        split
        · exact hmem
        · exact List.mem_append_left _ hmem
      rw [merge_cons, merge_cons, ih hkept _ hrest, insert_comm (Ne.symm hne) hmem]

theorem merge_insert :
    inner.merge (outer.insert name member) = (inner.merge outer).insert name member := by
  obtain ⟨members, hdistinct⟩ := outer
  induction members generalizing inner with
  | nil => rfl
  | cons entry rest ih =>
      obtain ⟨n, m⟩ := entry
      obtain ⟨hnew, hrest⟩ := List.nodup_cons.1 hdistinct
      by_cases hn : n = name
      · subst hn
        have hlater : n ∉ names ⟨rest, hrest⟩ := hnew
        have hinsert : insert ⟨(n, m) :: rest, hdistinct⟩ n member =
            ⟨(n, member) :: rest, hdistinct⟩ := Extension.ext (if_pos rfl)
        have hmem : n ∈ (inner.insert n m).names := by
          rw [names_insert]
          split <;> simp [*]
        rw [hinsert, merge_cons, merge_cons, insert_merge hmem hlater, insert_insert]
      · obtain ⟨hdistinct', hinsert⟩ : ∃ h, insert ⟨(n, m) :: rest, hdistinct⟩ name member =
            ⟨(n, m) :: (insert ⟨rest, hrest⟩ name member).members, h⟩ := by
          refine ⟨?_, Extension.ext (if_neg hn)⟩
          have hkept := (insert ⟨(n, m) :: rest, hdistinct⟩ name member).distinct
          simpa [insert, insertMember, hn] using hkept
        rw [hinsert, merge_cons, merge_cons]
        exact ih hrest

/-- Extensions in a row can be merged in any order. -/
theorem merge_assoc {middle : Extension} :
    (inner.merge middle).merge outer = inner.merge (middle.merge outer) := by
  obtain ⟨members, hdistinct⟩ := outer
  induction members generalizing middle with
  | nil => rfl
  | cons entry rest ih =>
      obtain ⟨n, m⟩ := entry
      rw [merge_cons, merge_cons, ← ih, merge_insert]

/-! ## Extensions in a row -/

def mergeAll (xs : List Extension) : Extension := xs.foldl merge {}

theorem mergeAll_concat (xs : List Extension) (x : Extension) :
    mergeAll (xs ++ [x]) = (mergeAll xs).merge x := by
  rw [mergeAll, List.foldl_append]
  rfl

variable {xs : List Extension}

theorem get?_mergeAll : (mergeAll xs).get? name = xs.reverse.findSome? (·.get? name) := by
  induction xs using List.reverseRecOn with
  | nil => rfl
  | append_singleton xs x ih =>
      rw [mergeAll_concat, get?_merge, ih, List.reverse_concat, List.findSome?_cons]
      cases x.get? name <;> rfl

theorem names_mergeAll : (mergeAll xs).names = (xs.flatMap names).eraseDups := by
  induction xs using List.reverseRecOn with
  | nil => rfl
  | append_singleton xs x ih =>
      rw [mergeAll_concat, names_merge, ih, List.flatMap_append, List.flatMap_singleton,
        eraseDups_eraseDups_append]

theorem get?_mergeAll_eq_none_iff : (mergeAll xs).get? name = none ↔ ∀ x ∈ xs, name ∉ x.names := by
  rw [get?_eq_none_iff, names_mergeAll, List.mem_eraseDups, List.mem_flatMap]
  simp

end Peg.Extension
