import Peg.Match.Query
import Peg.Text.Outline

/-!
# Extensions

An extension is a table of named members, each computing a value from a match. Members keep the
order in which their names were first entered, and there is one of each name. Merging lets the members
of the other table replace those of the same name.
-/

namespace Peg

abbrev Member := Match → Value

@[ext]
structure Extension where
  members : List (String × Member) := []
  distinct : (members.map (·.1)).Nodup := by exact List.nodup_nil

namespace Extension

def names (e : Extension) : List String := e.members.map (·.1)

def isEmpty (e : Extension) : Bool := e.members.isEmpty

def get? (e : Extension) (name : String) : Option Member := e.members.lookup name

/-- Replaces the member of a name where it stands, or adds it at the end. -/
def insertMember (name : String) (member : Member) : List (String × Member) → List (String × Member)
  | [] => [(name, member)]
  | (n, m) :: rest =>
    if n = name then (n, member) :: rest else (n, m) :: insertMember name member rest

theorem names_insertMember (name : String) (member : Member) (ms : List (String × Member)) :
    (insertMember name member ms).map (·.1) =
      if name ∈ ms.map (·.1) then ms.map (·.1) else ms.map (·.1) ++ [name] := by
  induction ms with
  | nil => rfl
  | cons entry rest ih =>
      obtain ⟨n, m⟩ := entry
      by_cases hn : n = name
      · subst hn
        simp [insertMember]
      · rw [insertMember, if_neg hn, List.map_cons, ih]
        by_cases hmem : name ∈ rest.map (·.1)
        · simp [hmem]
        · simp [hmem, Ne.symm hn]

theorem nodup_insertMember (name : String) (member : Member) {ms : List (String × Member)}
    (h : (ms.map (·.1)).Nodup) : ((insertMember name member ms).map (·.1)).Nodup := by
  rw [names_insertMember]
  split
  · exact h
  · next hnew =>
      refine List.nodup_append.2 ⟨h, by simp, fun n hn other hother heq => hnew ?_⟩
      rwa [← List.mem_singleton.1 hother, ← heq]

def insert (e : Extension) (name : String) (member : Member) : Extension :=
  ⟨insertMember name member e.members, nodup_insertMember name member e.distinct⟩

/-- The members of both tables, those of `outer` in place of others of the same name. -/
def merge (inner outer : Extension) : Extension :=
  outer.members.foldl (fun e (name, member) => e.insert name member) inner

def erase (e : Extension) (name : String) : Extension :=
  ⟨e.members.filter (·.1 != name), e.distinct.sublist (List.filter_sublist.map _)⟩

/-- The names in braces. -/
def outline (e : Extension) : String := Text.Outline.set (e.names.map Text.quote)

theorem length_erase_lt {e : Extension} {name : String} {member : Member}
    (h : e.get? name = some member) : (e.erase name).members.length < e.members.length := by
  obtain ⟨before, after, hm, -⟩ := List.lookup_eq_some_iff.1 h
  refine List.length_filter_lt_length_iff_exists.2 ⟨(name, member), ?_, by simp⟩
  simp [hm]

end Extension

/-- The match of a node whose rules define the members of an extension. A member is computed from
the match without that member, so that it has no value of its own to ask for. -/
def Match.withMembers (node : Node) (children : List Match) (e : Extension) : Match :=
  .mk node
    (fun name =>
      match h : e.get? name with
      | some member =>
        have := Extension.length_erase_lt h
        some (member (Match.withMembers node children (e.erase name)))
      | none => none)
    children
termination_by e.members.length

end Peg
