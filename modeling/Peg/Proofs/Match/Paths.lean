import Mathlib.Data.List.Lex
import Peg.Match.Basic

/-!
# Paths to the nodes of a match

Two nodes of a match tree can look the same, so a node is told apart by the path that leads to it. The
order of the paths is the order of the document, a node before the nodes below it. Main statements:
`Match.Listed.onward`, what is listed of the children one after the other is listed of the match, and
`Match.listed_generation`, a generation lists the nodes of a depth.
-/

namespace Peg.Match

/-- The node that a path leads to. Each number tells which child to go down to. -/
def at? (m : Match) : List Nat → Option Match
  | [] => some m
  | i :: path => m.children[i]?.bind fun child => child.at? path

theorem isSome_at?_cons {m : Match} {i : Nat} {path : List Nat} :
    (m.at? (i :: path)).isSome ↔ ∃ c, m.children[i]? = some c ∧ (c.at? path).isSome := by
  rw [at?]
  cases m.children[i]? <;> simp

/-- The path leads to a node that passes a test. -/
def Passes (m : Match) (test : Match → Bool) (path : List Nat) : Prop :=
  ∃ n, m.at? path = some n ∧ test n = true

theorem passes_nil {m : Match} {test : Match → Bool} : m.Passes test [] ↔ test m = true := by
  simp [Passes, at?]

theorem passes_cons {m : Match} {test : Match → Bool} {i : Nat} {path : List Nat} :
    m.Passes test (i :: path) ↔ ∃ c, m.children[i]? = some c ∧ c.Passes test path := by
  rw [Passes, at?]
  cases m.children[i]? <;> simp [Passes]

/-- The path leads to a child, and from there on it is one that is wanted. -/
def Inside (m : Match) (wanted : Match → List Nat → Prop) : List Nat → Prop
  | [] => False
  | i :: path => ∃ c, m.children[i]? = some c ∧ wanted c path

/-- The matches found are those at the paths that are wanted, listed by paths in an order. -/
def Listed (m : Match) (order : List Nat → List Nat → Prop) (wanted : List Nat → Prop)
    (found : List Match) : Prop :=
  ∃ paths : List (List Nat), paths.Pairwise order ∧ (∀ path, path ∈ paths ↔ wanted path) ∧
    found.map some = paths.map m.at?

/-- An order of paths that is decided by the first number in which they differ. -/
structure Branching (order : List Nat → List Nat → Prop) : Prop where
  apart : ∀ i j p q, i < j → order (i :: p) (j :: q)
  below : ∀ i p q, order p q → order (i :: p) (i :: q)

theorem branching_lt : Branching (· < ·) where
  apart _ _ _ _ h := List.Lex.rel h
  below _ _ _ h := List.Lex.cons h

theorem branching_ne : Branching (· ≠ ·) where
  apart _ _ _ _ h heq := absurd (List.cons.inj heq).1 (Nat.ne_of_lt h)
  below _ _ _ h heq := h (List.cons.inj heq).2

/-- The paths to the children, continued in each of them. -/
def onward (m : Match) (continued : Match → List (List Nat)) : List (List Nat) :=
  m.children.zipIdx.flatMap fun child => (continued child.1).map (child.2 :: ·)

section Onward

variable {m : Match} {continued : Match → List (List Nat)}

theorem mem_onward {path : List Nat} :
    path ∈ m.onward continued ↔ m.Inside (fun c q => q ∈ continued c) path := by
  simp only [onward, List.mem_flatMap, List.mem_map, Prod.exists, List.mem_zipIdx_iff_getElem?]
  cases path with
  | nil => simp [Inside]
  | cons i path => simp [Inside]

theorem pairwise_onward {order : List Nat → List Nat → Prop} (horder : Branching order)
    (h : ∀ c ∈ m.children, (continued c).Pairwise order) : (m.onward continued).Pairwise order := by
  rw [onward, List.pairwise_flatMap]
  refine ⟨fun child hchild => ?_, ?_⟩
  · rw [List.pairwise_map]
    exact (h child.1 (List.fst_mem_of_mem_zipIdx hchild)).imp (horder.below _ _ _)
  · have hlt : (m.children.zipIdx.map Prod.snd).Pairwise (· < ·) := by
      rw [List.zipIdx_map_snd]
      exact List.pairwise_lt_range'
    refine (List.pairwise_map.1 hlt).imp fun {c d} hlt p hp q hq => ?_
    obtain ⟨p, -, rfl⟩ := List.mem_map.1 hp
    obtain ⟨q, -, rfl⟩ := List.mem_map.1 hq
    exact horder.apart _ _ _ _ hlt

theorem map_at?_onward :
    (m.onward continued).map m.at? = m.children.flatMap fun c => (continued c).map c.at? := by
  have hchildren : m.children = m.children.zipIdx.map Prod.fst := (List.zipIdx_map_fst 0 _).symm
  conv_rhs => rw [hchildren, List.flatMap_map]
  rw [onward, List.map_flatMap]
  refine List.flatMap_congr fun child hchild => ?_
  rw [List.map_map]
  refine List.map_congr_left fun path _ => ?_
  rw [Function.comp_apply, at?, List.mem_zipIdx_iff_getElem?.1 hchild, Option.bind_some]

end Onward

section Listed

variable {m : Match} {order : List Nat → List Nat → Prop} {wanted wanted' : List Nat → Prop}
  {found found' : List Match}

theorem Listed.congr (h : m.Listed order wanted found) (heq : ∀ path, wanted path ↔ wanted' path) :
    m.Listed order wanted' found := by
  obtain ⟨paths, hpairwise, hmem, hfound⟩ := h
  exact ⟨paths, hpairwise, fun path => (hmem path).trans (heq path), hfound⟩

/-- What is listed of the children one after the other. -/
theorem Listed.onward {wanted : Match → List Nat → Prop} {found : Match → List Match}
    (horder : Branching order) (h : ∀ c ∈ m.children, c.Listed order (wanted c) (found c)) :
    m.Listed order (m.Inside wanted) (m.children.flatMap found) := by
  choose! paths hpairwise hmem hfound using h
  refine ⟨m.onward paths, pairwise_onward horder hpairwise, fun path => ?_, ?_⟩
  · rw [mem_onward]
    cases path with
    | nil => exact Iff.rfl
    | cons i path =>
        exact exists_congr fun c => and_congr_right fun hc => hmem c (List.mem_of_getElem? hc) path
  · rw [map_at?_onward, List.map_flatMap]
    exact List.flatMap_congr hfound

theorem Listed.append (h : m.Listed (· ≠ ·) wanted found) (h' : m.Listed (· ≠ ·) wanted' found')
    (hdisjoint : ∀ path, wanted path → ¬ wanted' path) :
    m.Listed (· ≠ ·) (fun path => wanted path ∨ wanted' path) (found ++ found') := by
  obtain ⟨paths, hpairwise, hmem, hfound⟩ := h
  obtain ⟨paths', hpairwise', hmem', hfound'⟩ := h'
  refine ⟨paths ++ paths', List.pairwise_append.2 ⟨hpairwise, hpairwise', ?_⟩, fun path => ?_, ?_⟩
  · rintro path hpath _ hpath' rfl
    exact hdisjoint path ((hmem path).1 hpath) ((hmem' path).1 hpath')
  · rw [List.mem_append, hmem, hmem']
  · rw [List.map_append, List.map_append, hfound, hfound']

theorem listed_self (order : List Nat → List Nat → Prop) (m : Match) (test : Match → Bool) :
    m.Listed order (fun path => path = [] ∧ test m = true) (if test m then [m] else []) := by
  cases htest : test m with
  | true => exact ⟨[[]], List.pairwise_singleton _ _, by simp, rfl⟩
  | false => exact ⟨[], .nil, by simp, rfl⟩

theorem Listed.mem (h : m.Listed order wanted found) {n : Match} :
    n ∈ found ↔ ∃ path, wanted path ∧ m.at? path = some n := by
  obtain ⟨paths, -, hmem, hfound⟩ := h
  have hmap : n ∈ found ↔ some n ∈ paths.map m.at? := by
    rw [← hfound, List.mem_map]
    exact ⟨fun hn => ⟨n, hn, rfl⟩, fun ⟨_, hn, heq⟩ => Option.some.inj heq ▸ hn⟩
  rw [hmap, List.mem_map]
  exact exists_congr fun path => and_congr_left fun _ => hmem path

theorem Listed.find? (h : m.Listed order wanted found) {test : Match → Bool} {n : Match}
    (hfind : found.find? test = some n) :
    ∃ path, wanted path ∧ m.at? path = some n ∧
      ∀ other, wanted other → m.Passes test other → other ≠ path → order path other := by
  obtain ⟨paths, hpairwise, hmem, hfound⟩ := h
  obtain ⟨htest, front, back, rfl, hfront⟩ := List.find?_eq_some_iff_append.1 hfind
  rw [List.map_append, List.map_cons, eq_comm, List.map_eq_append_iff] at hfound
  obtain ⟨before, rest, rfl, hbefore, hrest⟩ := hfound
  obtain ⟨path, after, rfl, hpath, -⟩ := List.map_eq_cons_iff.1 hrest
  refine ⟨path, (hmem path).1 (by simp), hpath, fun other hother hpasses hne => ?_⟩
  obtain ⟨x, hx, hxtest⟩ := hpasses
  rcases List.mem_append.1 ((hmem other).2 hother) with hin | hin
  · have hxin : some x ∈ front.map some := hbefore ▸ List.mem_map.2 ⟨other, hin, hx⟩
    obtain ⟨y, hy, heq⟩ := List.mem_map.1 hxin
    have hfails := hfront y hy
    rw [Option.some.inj heq, hxtest] at hfails
    cases hfails
  · rcases List.mem_cons.1 hin with rfl | hin
    · exact absurd rfl hne
    · exact (List.pairwise_cons.1 (List.pairwise_append.1 hpairwise).2.1).1 other hin

end Listed

/-! ## Generations -/

/-- The nodes as many levels below some matches, from left to right. -/
def generation : Nat → List Match → List Match
  | 0, ms => ms
  | k + 1, ms => generation k (ms.flatMap children)

theorem generation_eq (k : Nat) (ms : List Match) :
    generation k ms = ms.flatMap fun m => generation k [m] := by
  induction k generalizing ms with
  | zero => simp [generation]
  | succ k ih =>
      rw [generation, ih, List.flatMap_assoc]
      refine List.flatMap_congr fun m _ => ?_
      rw [generation, List.flatMap_singleton, ← ih]

theorem generation_succ (k : Nat) (m : Match) :
    generation (k + 1) [m] = m.children.flatMap fun c => generation k [c] := by
  rw [generation, List.flatMap_singleton, generation_eq]

/-- A generation below a match lists the nodes of its depth in the order of the document. -/
theorem listed_generation (k : Nat) (m : Match) :
    m.Listed (· < ·) (fun path => path.length = k ∧ (m.at? path).isSome) (generation k [m]) := by
  induction k generalizing m with
  | zero =>
      refine (listed_self _ m fun _ => true).congr fun path => ?_
      rw [List.length_eq_zero_iff]
      exact and_congr_right fun hpath => by rw [hpath]; rfl
  | succ k ih =>
      rw [generation_succ]
      refine (Listed.onward branching_lt fun c _ => ih c).congr fun path => ?_
      cases path with
      | nil => simp [Inside]
      | cons i path =>
          rw [isSome_at?_cons, List.length_cons, Nat.add_right_cancel_iff]
          exact ⟨fun ⟨c, hc, hlength, hsome⟩ => ⟨hlength, c, hc, hsome⟩,
            fun ⟨hlength, c, hc, hsome⟩ => ⟨c, hc, hlength, hsome⟩⟩

end Peg.Match
