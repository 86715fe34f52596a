import Mathlib.Logic.Relation
import Peg.Regex.Basic

/-!
# What expressions match

An expression relates the point of a text where a match begins to the points where it can end,
whichever of them is preferred. Sequences are compositions of relations, choices are unions, and
repetitions are powers. The normal form of a sequence means what the sequence means wherever sequences
are put together by an operation with a unit (`Sequential`), and so it has the same matches. Main
statement: `Regex.matches_ofParts`.
-/

namespace Peg.Regex

/-- A point of a text: the character before it, if it is not the first one, and the text after it. -/
structure Point where
  before : Option Char
  rest : List Char

namespace Point

def start (text : List Char) : Point := ⟨none, text⟩

/-- The second point is behind the character, the first one in front of it. -/
def Reads (c : Char) (p q : Point) : Prop := p.rest = c :: q.rest ∧ q.before = some c

/-- The second point is behind the characters, the first one in front of them. -/
def ReadsAll : List Char → Point → Point → Prop
  | [] => Eq
  | c :: cs => Relation.Comp (Reads c) (ReadsAll cs)

theorem ReadsAll.spec {u : List Char} {p q : Point} (h : ReadsAll u p q) :
    p.rest = u ++ q.rest ∧ q.before = u.getLast?.or p.before := by
  induction u generalizing p with
  | nil =>
      cases h
      exact ⟨rfl, rfl⟩
  | cons c u ih =>
      obtain ⟨p', ⟨hrest, hbefore⟩, hreads⟩ := h
      obtain ⟨hrest', hbefore'⟩ := ih hreads
      refine ⟨by rw [hrest, hrest', List.cons_append], ?_⟩
      rw [hbefore', hbefore]
      cases u <;> simp [List.getLast?_cons]

def Satisfies (p : Point) (condition : Look) : Prop := condition.holds p.before p.rest.head? = true

end Point

/-- The relation repeated a number of times. -/
def Rounds {α : Type} (R : α → α → Prop) : Nat → α → α → Prop
  | 0 => Eq
  | n + 1 => Relation.Comp R (Rounds R n)

def AnyRounds {α : Type} (R : α → α → Prop) (x y : α) : Prop := ∃ n, Rounds R n x y

def RoundsUpTo {α : Type} (R : α → α → Prop) (n : Nat) (x y : α) : Prop :=
  ∃ m ≤ n, Rounds R m x y

mutual

/-- The expression matches the text between two points. The greatest number of rounds of a repetition
counts as the least one if it is below it. -/
def Matches : Regex → Point → Point → Prop
  | .empty => Eq
  | .literal chars => Point.ReadsAll chars
  | .set s => fun p q => ∃ c, s.contains c = true ∧ p.Reads c q
  | .look condition => fun p q => p = q ∧ p.Satisfies condition
  | .times least most _ body => fun p q =>
    ∃ n, least ≤ n ∧ (∀ m, most = some m → n ≤ max least m) ∧ Rounds (Matches body) n p q
  | .group _ body => Matches body
  | .seq parts => MatchesParts parts
  | .alt options => MatchesOptions options

def MatchesParts : List Regex → Point → Point → Prop
  | [] => Eq
  | r :: rs => Relation.Comp (Matches r) (MatchesParts rs)

def MatchesOptions : List Regex → Point → Point → Prop
  | [] => fun _ _ => False
  | r :: rs => fun p q => Matches r p q ∨ MatchesOptions rs p q

end

/-! ## Rounds -/

section Rounds

variable {α : Type} {R : α → α → Prop}

theorem rounds_add (m n : Nat) :
    Rounds R (m + n) = Relation.Comp (Rounds R m) (Rounds R n) := by
  induction m with
  | zero => rw [Nat.zero_add]; exact Relation.eq_comp.symm
  | succ m ih =>
      rw [Nat.succ_add]
      show Relation.Comp R (Rounds R (m + n)) =
        Relation.Comp (Relation.Comp R (Rounds R m)) (Rounds R n)
      rw [ih, Relation.comp_assoc]

theorem rounds_one : Rounds R 1 = R := Relation.comp_eq

theorem anyRounds_iff (x y : α) :
    (x = y ∨ Relation.Comp R (AnyRounds R) x y) ↔ AnyRounds R x y := by
  constructor
  · intro h
    obtain rfl | ⟨z, hR, n, hrounds⟩ := h
    · exact ⟨0, rfl⟩
    · exact ⟨n + 1, z, hR, hrounds⟩
  · intro h
    obtain ⟨n, hrounds⟩ := h
    cases n with
    | zero => exact .inl hrounds
    | succ n =>
        obtain ⟨z, hR, hrounds⟩ := hrounds
        exact .inr ⟨z, hR, n, hrounds⟩

theorem roundsUpTo_zero : RoundsUpTo R 0 = Eq := by
  funext x y
  refine propext ⟨fun h => ?_, fun h => ⟨0, Nat.le_refl _, h⟩⟩
  obtain ⟨m, hm, hrounds⟩ := h
  cases Nat.le_zero.1 hm
  exact hrounds

theorem roundsUpTo_succ_iff (n : Nat) (x y : α) :
    (x = y ∨ Relation.Comp R (RoundsUpTo R n) x y) ↔ RoundsUpTo R (n + 1) x y := by
  constructor
  · intro h
    obtain rfl | ⟨z, hR, m, hm, hrounds⟩ := h
    · exact ⟨0, Nat.zero_le _, rfl⟩
    · exact ⟨m + 1, Nat.succ_le_succ hm, z, hR, hrounds⟩
  · intro h
    obtain ⟨m, hm, hrounds⟩ := h
    cases m with
    | zero => exact .inl hrounds
    | succ m =>
        obtain ⟨z, hR, hrounds⟩ := hrounds
        exact .inr ⟨z, hR, m, Nat.le_of_succ_le_succ hm, hrounds⟩

theorem rounds_comp_anyRounds_iff (least : Nat) (x y : α) :
    Relation.Comp (Rounds R least) (AnyRounds R) x y ↔ ∃ n, least ≤ n ∧ Rounds R n x y := by
  constructor
  · intro h
    obtain ⟨z, hleast, n, hrounds⟩ := h
    refine ⟨least + n, Nat.le_add_right _ _, ?_⟩
    rw [rounds_add]
    exact ⟨z, hleast, hrounds⟩
  · intro h
    obtain ⟨n, hn, hrounds⟩ := h
    obtain ⟨n, rfl⟩ := Nat.exists_eq_add_of_le hn
    rw [rounds_add] at hrounds
    obtain ⟨z, hleast, hrounds⟩ := hrounds
    exact ⟨z, hleast, n, hrounds⟩

theorem rounds_comp_roundsUpTo_iff (least more : Nat) (x y : α) :
    Relation.Comp (Rounds R least) (RoundsUpTo R more) x y ↔
      ∃ n, least ≤ n ∧ n ≤ least + more ∧ Rounds R n x y := by
  constructor
  · intro h
    obtain ⟨z, hleast, n, hn, hrounds⟩ := h
    refine ⟨least + n, Nat.le_add_right _ _, Nat.add_le_add_left hn _, ?_⟩
    rw [rounds_add]
    exact ⟨z, hleast, hrounds⟩
  · intro h
    obtain ⟨n, hn, hmore, hrounds⟩ := h
    obtain ⟨n, rfl⟩ := Nat.exists_eq_add_of_le hn
    rw [rounds_add] at hrounds
    obtain ⟨z, hleast, hrounds⟩ := hrounds
    exact ⟨z, hleast, n, Nat.le_of_add_le_add_left hmore, hrounds⟩

end Rounds

/-! ## Normal forms of sequences -/

/-- What expressions mean in a domain where sequences are put together by an operation with a unit. -/
structure Sequential {M : Type} (op : M → M → M) (unit : M) (f : Regex → M) : Prop where
  assoc : ∀ x y z, op (op x y) z = op x (op y z)
  unit_left : ∀ x, op unit x = x
  unit_right : ∀ x, op x unit = x
  empty : f .empty = unit
  literal : ∀ a b, f (.literal (a ++ b)) = op (f (.literal a)) (f (.literal b))
  seq : ∀ rs, f (.seq rs) = rs.foldr (fun r x => op (f r) x) unit

namespace Sequential

variable {M : Type} {op : M → M → M} {unit : M} {f : Regex → M}

/-- What expressions one after the other mean. -/
abbrev all (op : M → M → M) (unit : M) (f : Regex → M) (rs : List Regex) : M :=
  rs.foldr (fun r x => op (f r) x) unit

theorem all_append (h : Sequential op unit f) (rs ss : List Regex) :
    all op unit f (rs ++ ss) = op (all op unit f rs) (all op unit f ss) := by
  induction rs with
  | nil => exact (h.unit_left _).symm
  | cons r rs ih =>
      show op (f r) (all op unit f (rs ++ ss)) = op (op (f r) (all op unit f rs)) _
      rw [ih, h.assoc]

theorem all_singleton (h : Sequential op unit f) (r : Regex) : all op unit f [r] = f r :=
  h.unit_right _

theorem all_parts (h : Sequential op unit f) (r : Regex) : all op unit f r.parts = f r := by
  cases r with
  | seq rs => exact (h.seq rs).symm
  | _ => exact h.all_singleton _

theorem all_flatMap_parts (h : Sequential op unit f) (rs : List Regex) :
    all op unit f (rs.flatMap parts) = all op unit f rs := by
  induction rs with
  | nil => rfl
  | cons r rs ih =>
      rw [List.flatMap_cons, h.all_append, h.all_parts, ih]
      rfl

theorem eq_empty_of_isEmpty {r : Regex} (hr : r.isEmpty = true) : r = .empty := by
  cases r with
  | empty => rfl
  | _ => cases hr

theorem all_filter (h : Sequential op unit f) (rs : List Regex) :
    all op unit f (rs.filter (!·.isEmpty)) = all op unit f rs := by
  induction rs with
  | nil => rfl
  | cons r rs ih =>
      by_cases hempty : r.isEmpty = true
      · rw [List.filter_cons_of_neg (by simp [hempty]), ih, eq_empty_of_isEmpty hempty]
        show _ = op (f .empty) _
        rw [h.empty, h.unit_left]
      · rw [List.filter_cons_of_pos (by simp [hempty])]
        exact congrArg (op (f r)) ih

theorem all_consPart (h : Sequential op unit f) (r : Regex) (rs : List Regex) :
    all op unit f (consPart r rs) = op (f r) (all op unit f rs) := by
  unfold consPart
  split
  · show op (f (.literal _)) _ = op _ (op _ _)
    rw [h.literal, h.assoc]
  · rfl

theorem all_foldr_consPart (h : Sequential op unit f) (rs : List Regex) :
    all op unit f (rs.foldr consPart []) = all op unit f rs := by
  induction rs with
  | nil => rfl
  | cons r rs ih =>
      rw [List.foldr_cons, h.all_consPart, ih]
      rfl

theorem apply_ofParts (h : Sequential op unit f) (rs : List Regex) :
    f (ofParts rs) = all op unit f rs := by
  have hnormal : all op unit f (((rs.flatMap parts).filter (!·.isEmpty)).foldr consPart []) =
      all op unit f rs := by
    rw [h.all_foldr_consPart, h.all_filter, h.all_flatMap_parts]
  unfold ofParts
  rw [← hnormal]
  split
  · next heq =>
      rw [heq]
      exact h.empty
  · next heq =>
      rw [heq, h.all_singleton]
  · exact h.seq _

end Sequential

theorem readsAll_append (cs ds : List Char) :
    Point.ReadsAll (cs ++ ds) = Relation.Comp (Point.ReadsAll cs) (Point.ReadsAll ds) := by
  induction cs with
  | nil => exact Relation.eq_comp.symm
  | cons c cs ih =>
      show Relation.Comp (Point.Reads c) (Point.ReadsAll (cs ++ ds)) = _
      rw [ih, ← Relation.comp_assoc]
      rfl

theorem matchesParts_eq (rs : List Regex) :
    MatchesParts rs = Sequential.all Relation.Comp Eq Matches rs := by
  induction rs with
  | nil => rfl
  | cons r rs ih =>
      simp only [MatchesParts, ih]
      rfl

theorem sequential_matches : Sequential Relation.Comp Eq Matches where
  assoc _ _ _ := Relation.comp_assoc
  unit_left _ := Relation.eq_comp
  unit_right _ := Relation.comp_eq
  empty := rfl
  literal := readsAll_append
  seq rs := by
    rw [Matches]
    exact matchesParts_eq rs

/-- The normal form of a sequence matches what the sequence matches. -/
theorem matches_ofParts (rs : List Regex) : Matches (ofParts rs) = MatchesParts rs := by
  rw [sequential_matches.apply_ofParts, matchesParts_eq]

/-! ## The start of the text -/

theorem matches_textStart (r : Regex) (p q : Point) :
    Matches (ofParts [.look .textStart, r]) p q ↔ p.before = none ∧ Matches r p q := by
  simp only [matches_ofParts, MatchesParts, Matches, Relation.comp_eq]
  constructor
  · intro h
    obtain ⟨_, ⟨rfl, hstart⟩, hr⟩ := h
    exact ⟨by simpa [Point.Satisfies, Look.holds] using hstart, hr⟩
  · intro h
    exact ⟨p, ⟨rfl, by simp [Point.Satisfies, Look.holds, h.1]⟩, h.2⟩

end Peg.Regex
