import Peg.Proofs.Json.Printed
import Peg.Proofs.Match.Queries
import Peg.Proofs.Match.Tiles
import Peg.Proofs.Value

/-!
# Encoded matches

The JSON of a match is read by the grammar of JSON as what it was printed from: an object with the
offsets of the match, its names, and the objects of the matches below it or, where there are none, its
text. Main statement: `Library.parse_toJson`.
-/

namespace Peg

namespace Match

mutual

/-- The object of a match: where it begins and ends, its names in order, and either the objects of the
matches below it or its text. -/
def encoded : Match → Value
  | mk node call children =>
    let m := mk node call children
    .object
      [("inner", if children.isEmpty then .string m.text else .array (encodedAll children)),
        ("names", .array (m.names.map .string)),
        ("pos", .array [.int m.offset, .int (m.offset + m.length)])]

def encodedAll : List Match → List Value
  | [] => []
  | m :: ms => m.encoded :: encodedAll ms

end

theorem encodedAll_eq (ms : List Match) : encodedAll ms = ms.map encoded := by
  induction ms with
  | nil => rfl
  | cons m ms ih => rw [encodedAll, ih, List.map_cons]

theorem encoded_eq (m : Match) :
    m.encoded = .object
      [("inner", if m.children.isEmpty then .string m.text else .array (m.children.map encoded)),
        ("names", .array (m.names.map .string)),
        ("pos", .array [.int m.offset, .int (m.offset + m.length)])] := by
  rw [← encodedAll_eq]
  cases m
  rfl

theorem ofFields_document (pos names inner : Value) :
    Value.ofFields [("pos", pos), ("names", names), ("inner", inner)] =
      .object [("inner", inner), ("names", names), ("pos", pos)] := by
  have hnames : "names" < "pos" := by decide
  have hinner : "inner" < "names" := by decide
  simp [Value.ofFields, insertField, hnames, hinner]

theorem value_document (m : Match) : m.document.value = m.encoded := by
  induction m using inductionOn with
  | step m ih =>
      have hnames : Json.Document.values (m.names.map .string) = m.names.map .string := by
        rw [Json.Document.values_eq, List.map_map]
        exact List.map_congr_left fun name _ => rfl
      have hbelow : Json.Document.values (m.children.map document) = m.children.map encoded := by
        rw [Json.Document.values_eq, List.map_map]
        exact List.map_congr_left ih
      have hinner :
          (if m.children.isEmpty then Json.Document.string m.text
            else .array (m.children.map document)).value =
          if m.children.isEmpty then .string m.text else .array (m.children.map encoded) := by
        split
        · rfl
        · rw [Json.Document.value, hbelow]
      rw [document_eq, encoded_eq, Json.Document.value]
      simp only [Json.Document.fieldValues, ofFields_document, Json.Document.value,
        Json.Document.values, hnames, hinner]
      rfl

theorem exact_document {m : Match} (h : ∀ n ∈ m.nodes, n.finish ≤ Json.maxSignificand) {n : Match}
    (hn : n ∈ m.nodes) : n.document.Exact := by
  induction n using inductionOn with
  | step n ih =>
      have hfinish : n.finish ≤ Json.maxSignificand := h n hn
      have hoffset : n.offset ≤ Json.maxSignificand := (Nat.le_add_right _ _).trans hfinish
      rw [document_eq, Json.Document.Exact, Json.Document.exactFields_iff]
      simp only [List.forall_mem_cons, Json.Document.Exact, Json.Document.exactItems_iff]
      refine ⟨⟨hoffset, hfinish, List.forall_mem_nil _⟩, ?_, ?_, List.forall_mem_nil _⟩
      · rintro d hd
        obtain ⟨name, -, rfl⟩ := List.mem_map.1 hd
        trivial
      · split
        · trivial
        · rw [Json.Document.Exact, Json.Document.exactItems_iff]
          intro d hd
          obtain ⟨c, hc, rfl⟩ := List.mem_map.1 hd
          exact ih c hc (mem_nodes_of_mem_children m hn hc)

/-! ## Nesting -/

mutual

/-- How many matches there are at most from this one downwards, each below the one before it. -/
def height : Match → Nat
  | mk _ _ children => Json.greatest (heights children) + 1

def heights : List Match → List Nat
  | [] => []
  | m :: ms => m.height :: heights ms

end

theorem heights_eq (ms : List Match) : heights ms = ms.map height := by
  induction ms with
  | nil => rfl
  | cons m ms ih => rw [heights, ih, List.map_cons]

theorem height_eq (m : Match) : m.height = Json.greatest (m.children.map height) + 1 := by
  rw [← heights_eq]
  cases m
  rfl

theorem greatest_double (ms : List Match) :
    Json.greatest (ms.map fun m => 2 * m.height) = 2 * Json.greatest (ms.map height) := by
  induction ms with
  | nil => rfl
  | cons m ms ih =>
      simp only [List.map_cons, Json.greatest_cons, ih]
      omega

theorem depth_document (m : Match) : m.document.depth = 2 * m.height := by
  induction m using inductionOn with
  | step m ih =>
      have hpos : (Json.Document.array [.number m.offset, .number m.finish]).depth = 1 := rfl
      have hnames : (Json.Document.array (m.names.map .string)).depth = 1 := by
        rw [Json.Document.depth, Json.Document.itemDepths_eq, List.map_map]
        induction m.names with
        | nil => rfl
        | cons name names ihnames => exact ihnames
      have hbelow : (Json.Document.array (m.children.map document)).depth =
          2 * Json.greatest (m.children.map height) + 1 := by
        rw [Json.Document.depth, Json.Document.itemDepths_eq, List.map_map, ← greatest_double]
        exact congrArg (Json.greatest · + 1) (List.map_congr_left ih)
      rw [document_eq, height_eq, Json.Document.depth]
      simp only [Json.Document.fieldDepths, Json.greatest_cons, hpos, hnames]
      cases hchildren : m.children with
      | nil => rfl
      | cons c cs =>
          rw [hchildren] at hbelow
          simp only [List.isEmpty_cons, Bool.false_eq_true, if_false, hbelow, Json.greatest]
          simp only [List.foldr_nil]
          omega

theorem Placed.finish_le {source : List Char} {m : Match} (h : m.Placed source) :
    m.finish ≤ byteLength source := by
  obtain ⟨p, q, -, hq, -⟩ := h.text
  obtain ⟨hin, hoffset⟩ := Place.at?_eq_some_iff.1 hq
  rw [← hoffset, ← hin.offset_add_rest]
  exact Nat.le_add_right _ _

end Match

namespace Library

/-- Every node of the match of a successful parse is printed as a text that the grammar of JSON reads
as the object of the node, unless it is nested too deep, which a node of a height up to 25 is not.
Offsets are read exactly, since a text in memory has fewer than `2 ^ 64` bytes. -/
theorem parse_toJson {lib : Library} (hlib : lib.Built) {g : Nat} {text : String}
    {options : ParseOptions} {m : Match} (h : lib.parse g text options = .ok m)
    (hsize : byteLength text.toList < 2 ^ 64) :
    ∀ n ∈ m.nodes,
      ((∃ error, Json.parse n.toJson = .error error ∧ error.kind = .depthLimit) ∨
        Json.parse n.toJson = .ok n.encoded) ∧
      (n.height ≤ 25 → Json.parse n.toJson = .ok n.encoded) := by
  have hplaced := placed_of_parse hlib h
  have hfinish : ∀ n ∈ m.nodes, n.finish ≤ Json.maxSignificand := fun n hn =>
    (hplaced n hn).finish_le.trans (Nat.le_of_lt_succ hsize)
  intro n hn
  have hexact := Match.exact_document hfinish hn
  rw [← Match.value_document]
  refine ⟨Json.parse_pretty hexact, fun hheight => Json.parse_pretty_of_depth hexact ?_⟩
  rw [Match.depth_document]
  exact Nat.mul_le_mul_left 2 hheight

/-- Two pairs of brackets inside each other: both of the nodes are read. -/
theorem parse_toJson_brackets :
    ∃ m, bracketLibrary.parse 0 "(())" { memoize := false } = .ok m ∧
      byteLength "(())".toList < 2 ^ 64 ∧ m.children ≠ [] ∧
      ∀ n ∈ m.nodes, Json.parse n.toJson = .ok n.encoded := by
  have hok : (bracketLibrary.parse 0 "(())" { memoize := false }).toOption.any
      (fun m => !m.children.isEmpty && m.nodes.all (·.height ≤ 25)) = true := by
    decide +kernel
  cases hparse : bracketLibrary.parse 0 "(())" { memoize := false } with
  | error e =>
      rw [hparse] at hok
      cases hok
  | ok m =>
      rw [hparse] at hok
      have hnodes : (!m.children.isEmpty && m.nodes.all (·.height ≤ 25)) = true := hok
      obtain ⟨hchildren, hheights⟩ := Bool.and_eq_true_iff.1 hnodes
      refine ⟨m, rfl, by decide, by simpa using hchildren, fun n hn => ?_⟩
      have hheight := of_decide_eq_true (List.all_eq_true.1 hheights n hn)
      exact (parse_toJson bracketLibrary_built hparse (by decide) n hn).2 hheight

end Library

end Peg
