import Mathlib.Data.List.Shortlex
import Peg.Proofs.Match.Paths
import Peg.Proofs.Match.Walk

/-!
# What the queries of a match find

Nodes are told apart by their paths: looking for descendants finds each of them once, in whatever order
it walks the tree. Main statement: `Match.queries_faithful`.
-/

namespace Peg.Match

theorem size_le_sizeAll {m : Match} {ms : List Match} (h : m ∈ ms) : m.size ≤ sizeAll ms := by
  induction ms with
  | nil => cases h
  | cons n ms ih =>
      rw [sizeAll]
      rcases List.mem_cons.1 h with rfl | h
      · exact Nat.le_add_right _ _
      · exact Nat.le_trans (ih h) (Nat.le_add_left _ _)

theorem inductionOn {motive : Match → Prop} (m : Match)
    (step : ∀ m, (∀ c ∈ m.children, motive c) → motive m) : motive m := by
  induction hsize : m.size using Nat.strongRecOn generalizing m with
  | ind size ih =>
      refine step m fun c hc => ih c.size ?_ c rfl
      rw [← hsize, size_eq m]
      exact Nat.lt_succ_of_le (size_le_sizeAll hc)

/-! ## Descendants of a name -/

theorem filter_eq_flatMap (test : Match → Bool) (ms : List Match) :
    ms.filter test = ms.flatMap fun m => if test m then [m] else [] := by
  induction ms with
  | nil => rfl
  | cons m ms ih =>
      rw [List.filter_cons, List.flatMap_cons, ih]
      split <;> rfl

theorem listed_children {order : List Nat → List Nat → Prop} (horder : Branching order) (m : Match)
    (test : Match → Bool) :
    m.Listed order (fun path => path.length = 1 ∧ m.Passes test path) (m.children.filter test) := by
  rw [filter_eq_flatMap]
  refine (Listed.onward horder fun c _ => listed_self order c test).congr fun path => ?_
  cases path with
  | nil => simp [Inside]
  | cons i path =>
      rw [passes_cons, List.length_cons, Nat.add_eq_right, List.length_eq_zero_iff]
      constructor
      · rintro ⟨c, hc, rfl, htest⟩
        exact ⟨rfl, c, hc, passes_nil.2 htest⟩
      · rintro ⟨rfl, c, hc, htest⟩
        exact ⟨c, hc, rfl, passes_nil.1 htest⟩

theorem listed_findBelow (name : String) (m : Match) :
    m.Listed (· ≠ ·) (fun path => path ≠ [] ∧ m.Passes (·.hasName name) path) (m.findBelow name) := by
  induction m using inductionOn with
  | step m ih =>
      rw [findBelow_eq, findBelowAll_eq, ← List.flatMap_def]
      refine ((listed_children branching_ne m (·.hasName name)).append
        (Listed.onward branching_ne ih) ?_).congr fun path => ?_
      · rintro path ⟨hlength, -⟩ hinside
        obtain ⟨i, rfl⟩ := List.length_eq_one_iff.1 hlength
        obtain ⟨c, -, hne, -⟩ := hinside
        exact hne rfl
      · cases path with
        | nil => simp [Inside]
        | cons i path =>
            rw [passes_cons, List.length_cons, Nat.add_eq_right, List.length_eq_zero_iff]
            constructor
            · rintro (⟨-, hpasses⟩ | ⟨c, hc, -, hpasses⟩)
              · exact ⟨List.cons_ne_nil i path, hpasses⟩
              · exact ⟨List.cons_ne_nil i path, c, hc, hpasses⟩
            · rintro ⟨-, c, hc, hpasses⟩
              by_cases hnil : path = []
              · exact .inl ⟨hnil, c, hc, hpasses⟩
              · exact .inr ⟨c, hc, hnil, hpasses⟩

/-! ## The first descendant of a name -/

theorem firstAmong_spec (name : String) (level : List Match) :
    (∀ n, firstAmong name level = some n →
      ∃ k, (generation k level).find? (·.hasName name) = some n ∧
        ∀ j < k, ∀ x ∈ generation j level, x.hasName name = false) ∧
      (firstAmong name level = none → ∀ k, ∀ x ∈ generation k level, x.hasName name = false) := by
  fun_induction firstAmong name level with
  | case1 =>
      refine ⟨nofun, fun _ k => ?_⟩
      rw [generation_eq]
      nofun
  | case2 m ms found hfound =>
      refine ⟨fun n hn => ⟨0, Option.some.inj hn ▸ hfound, nofun⟩, nofun⟩
  | case3 m ms hnone ih =>
      have hlevel : ∀ x ∈ m :: ms, x.hasName name = false := fun x hx =>
        Bool.eq_false_iff.2 (List.find?_eq_none.1 hnone x hx)
      refine ⟨fun n hn => ?_, fun hnone k => ?_⟩
      · obtain ⟨k, hfind, hbefore⟩ := ih.1 n hn
        refine ⟨k + 1, hfind, fun j hj => ?_⟩
        cases j with
        | zero => exact hlevel
        | succ j => exact hbefore j (Nat.lt_of_succ_lt_succ hj)
      · cases k with
        | zero => exact hlevel
        | succ k => exact ih.2 hnone k

theorem generation_children (k : Nat) (m : Match) :
    generation k m.children = generation (k + 1) [m] := by
  rw [generation, List.flatMap_singleton]

theorem exists_mem_generation {m : Match} {test : Match → Bool} {path : List Nat} (hne : path ≠ [])
    (h : m.Passes test path) :
    ∃ n ∈ generation (path.length - 1) m.children, m.at? path = some n ∧ test n = true := by
  obtain ⟨n, hn, htest⟩ := h
  have hlength := List.length_pos_iff.2 hne
  refine ⟨n, ?_, hn, htest⟩
  rw [generation_children, Nat.sub_add_cancel hlength]
  exact (listed_generation _ m).mem.2 ⟨path, ⟨rfl, by rw [hn]; rfl⟩, hn⟩

theorem first_eq_some {name : String} {m n : Match} (h : m.first name = some n) :
    ∃ path, path ≠ [] ∧ m.at? path = some n ∧ n.hasName name = true ∧
      ∀ other, other ≠ [] → m.Passes (·.hasName name) other → other ≠ path →
        List.Shortlex (· < ·) path other := by
  obtain ⟨k, hfind, hbefore⟩ := (firstAmong_spec name m.children).1 n h
  rw [generation_children] at hfind
  obtain ⟨path, ⟨hlength, -⟩, hn, hleast⟩ := (listed_generation (k + 1) m).find? hfind
  have hname : n.hasName name = true := List.find?_some (p := fun x => hasName x name) hfind
  refine ⟨path, ?_, hn, hname, fun other hne hpasses hother => ?_⟩
  · rintro rfl
    cases hlength
  · obtain ⟨x, hx, hat, hxname⟩ := exists_mem_generation hne hpasses
    have hpos := List.length_pos_iff.2 hne
    have hdepth : ¬ other.length - 1 < k := fun hlt =>
      Bool.false_ne_true ((hbefore _ hlt x hx).symm.trans hxname)
    rcases Nat.lt_or_ge path.length other.length with hlt | hge
    · exact .of_length_lt hlt
    · have hlength' : other.length = k + 1 := by omega
      exact .of_lex (hlength.trans hlength'.symm)
        (hleast other ⟨hlength', by rw [hat]; rfl⟩ hpasses hother)

theorem not_passes_of_first {name : String} {m : Match} (h : m.first name = none) {path : List Nat}
    (hne : path ≠ []) : ¬ m.Passes (·.hasName name) path := by
  intro hpasses
  obtain ⟨x, hx, -, hname⟩ := exists_mem_generation hne hpasses
  exact Bool.false_ne_true (((firstAmong_spec name m.children).2 h _ x hx).symm.trans hname)

/-! ## The closest descendants with a name -/

/-- The path leads to a proper descendant with a name, and there is no other on the way. -/
structure Outermost (m : Match) (path : List Nat) : Prop where
  below : path ≠ []
  named : m.Passes isNamed path
  closest : ∀ front, front ≠ [] → front <+: path → front ≠ path → ¬ m.Passes isNamed front

theorem outermost_cons {m c : Match} {i : Nat} {path : List Nat} (hc : m.children[i]? = some c) :
    m.Outermost (i :: path) ↔ if c.isNamed then path = [] else c.Outermost path := by
  have hpasses : ∀ q, m.Passes isNamed (i :: q) ↔ c.Passes isNamed q := fun q => by
    rw [passes_cons, hc]
    simp
  constructor
  · intro h
    split
    · next hnamed =>
        -- the child itself would be on the way
        by_contra hne
        exact h.closest [i] (List.cons_ne_nil _ _) (by simp) (by simpa using Ne.symm hne)
          ((hpasses []).2 (passes_nil.2 hnamed))
    · next hnamed =>
        refine ⟨?_, (hpasses path).1 h.named, fun front hne hbegins hother hfront => ?_⟩
        · rintro rfl
          exact hnamed (passes_nil.1 ((hpasses []).1 h.named))
        · exact h.closest (i :: front) (List.cons_ne_nil _ _) ((List.prefix_cons_inj i).2 hbegins)
            (fun heq => hother (List.cons.inj heq).2) ((hpasses front).2 hfront)
  · split
    · next hnamed =>
        rintro rfl
        refine ⟨List.cons_ne_nil _ _, (hpasses []).2 (passes_nil.2 hnamed), ?_⟩
        intro front hne hbegins hother
        rcases List.prefix_cons_iff.1 hbegins with rfl | ⟨rest, rfl, hrest⟩
        · exact absurd rfl hne
        · rw [List.prefix_nil.1 hrest] at hother
          exact absurd rfl hother
    · next hnamed =>
        intro h
        refine ⟨List.cons_ne_nil _ _, (hpasses path).2 h.named, fun front hne hbegins hother => ?_⟩
        rcases List.prefix_cons_iff.1 hbegins with rfl | ⟨rest, rfl, hrest⟩
        · exact absurd rfl hne
        · rw [hpasses]
          by_cases hnil : rest = []
          · rw [hnil, passes_nil]
            exact hnamed
          · exact h.closest rest hnil hrest fun heq => hother (heq ▸ rfl)

theorem inside_outermost {m : Match} {path : List Nat} :
    m.Inside (fun c q => if c.isNamed then q = [] else c.Outermost q) path ↔ m.Outermost path := by
  cases path with
  | nil => exact ⟨False.elim, fun h => h.below rfl⟩
  | cons i path =>
      constructor
      · rintro ⟨c, hc, hwanted⟩
        exact (outermost_cons hc).2 hwanted
      · intro h
        obtain ⟨c, hc, -⟩ := passes_cons.1 h.named
        exact ⟨c, hc, (outermost_cons hc).1 h⟩

theorem listed_namedMatches (m : Match) : m.Listed (· < ·) m.Outermost m.namedMatches := by
  induction m using inductionOn with
  | step m ih =>
      rw [namedMatches, namedFromAll_eq, ← List.flatMap_def]
      refine (Listed.onward branching_lt fun c hc => ?_).congr fun path => inside_outermost
      rw [namedFrom_eq]
      cases hnames : c.names.isEmpty with
      | true =>
          simp only [isNamed, hnames, Bool.not_true, Bool.false_eq_true, if_false, if_true]
          exact ih c hc
      | false =>
          have hself := listed_self (· < ·) c isNamed
          simpa [isNamed, hnames] using hself

theorem Outermost.eq_of_isPrefix {m : Match} {path other : List Nat} (h : m.Outermost path)
    (h' : m.Outermost other) (hbegins : path <+: other) : path = other := by
  by_contra hne
  exact h'.closest path h.below hbegins hne h.named

theorem exists_outermost {m : Match} {path : List Nat} (hne : path ≠ [])
    (h : m.Passes isNamed path) : ∃ top, m.Outermost top ∧ top <+: path := by
  induction hlength : path.length using Nat.strongRecOn generalizing path with
  | ind length ih =>
      by_cases htop : m.Outermost path
      · exact ⟨path, htop, List.prefix_refl _⟩
      · have hfront : ∃ front, front ≠ [] ∧ front <+: path ∧ front ≠ path ∧
            m.Passes isNamed front := by
          by_contra hnot
          push Not at hnot
          exact htop ⟨hne, h, hnot⟩
        obtain ⟨front, hfront, hbegins, hother, hpasses⟩ := hfront
        have hlt : front.length < length := hlength ▸ Nat.lt_of_le_of_ne hbegins.length_le fun heq =>
          hother (hbegins.eq_of_length heq)
        obtain ⟨top, htop, hbelow⟩ := ih _ hlt hfront hpasses rfl
        exact ⟨top, htop, hbelow.trans hbegins⟩

/-- A deep search lists each proper descendant of the name once and nothing else, and a shallow one the
children of the name in their order. The first match of the name is there if a deep search finds
anything, and it stands at the path that comes first by depth and then in the order of the document.
The named matches are, in the order of the document, the descendants with a name that have no other
such descendant above them: none of them lies below another, and every descendant with a name lies in
or below exactly one. -/
theorem queries_faithful (m : Match) (name : String) :
    m.Listed (· ≠ ·) (fun path => path ≠ [] ∧ m.Passes (·.hasName name) path) (m.find name true) ∧
      m.Listed (· < ·) (fun path => path.length = 1 ∧ m.Passes (·.hasName name) path)
        (m.find name false) ∧
      ((m.first name).isSome ↔ m.find name true ≠ []) ∧
      (∀ n, m.first name = some n →
        ∃ path, path ≠ [] ∧ m.at? path = some n ∧ n.hasName name = true ∧
          ∀ other, other ≠ [] → m.Passes (·.hasName name) other → other ≠ path →
            List.Shortlex (· < ·) path other) ∧
      m.Listed (· < ·) m.Outermost m.namedMatches ∧
      (∀ path other, m.Outermost path → m.Outermost other → path <+: other → path = other) ∧
      ∀ path, path ≠ [] → m.Passes isNamed path → ∃! top, m.Outermost top ∧ top <+: path := by
  have hdeep : m.Listed (· ≠ ·) (fun path => path ≠ [] ∧ m.Passes (·.hasName name) path)
      (m.find name true) := listed_findBelow name m
  refine ⟨hdeep, listed_children branching_lt m _, ?_, fun n hn => first_eq_some hn,
    listed_namedMatches m, fun path other => Outermost.eq_of_isPrefix, fun path hne hnamed => ?_⟩
  · rw [Option.isSome_iff_exists]
    constructor
    · rintro ⟨n, hn⟩
      obtain ⟨path, hne, hat, hname, -⟩ := first_eq_some hn
      exact List.ne_nil_of_mem (hdeep.mem.2 ⟨path, ⟨hne, n, hat, hname⟩, hat⟩)
    · intro hfound
      obtain ⟨n, hn⟩ := List.exists_mem_of_ne_nil _ hfound
      obtain ⟨path, ⟨hne, hpasses⟩, -⟩ := hdeep.mem.1 hn
      rw [← Option.isSome_iff_exists, Option.isSome_iff_ne_none]
      exact fun hnone => not_passes_of_first hnone hne hpasses
  · obtain ⟨top, htop, hbegins⟩ := exists_outermost hne hnamed
    refine ⟨top, ⟨htop, hbegins⟩, ?_⟩
    rintro other ⟨hother, hbegins'⟩
    rcases List.prefix_or_prefix_of_prefix hbegins' hbegins with hbelow | hbelow
    · exact hother.eq_of_isPrefix htop hbelow
    · exact (htop.eq_of_isPrefix hother hbelow).symm

end Peg.Match
