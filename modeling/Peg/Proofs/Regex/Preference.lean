import Mathlib.Logic.Function.Iterate
import Peg.Proofs.Regex.Matches
import Peg.Text.Place

/-!
# Which match is preferred

A match is looked for in order: of two options the first one is tried before the second one, and a
greedy repetition tries one more round before it goes on. What comes after an expression is a way that
can fail, and then the next possibility is tried. Where every repetition without a bound reads something
in each round (`loopsRead`), this settles which match comes first.
-/

namespace Peg.Regex

/-- How to go on from a point to the end of a match, if there is one. -/
abbrev Way := Point → Option Point

def Point.read (p : Point) (s : CharSet) : Option Point :=
  match p.rest with
  | [] => none
  | c :: rest => if s.contains c then some ⟨some c, rest⟩ else none

theorem Point.read_eq_some_iff {s : CharSet} {p q : Point} :
    p.read s = some q ↔ ∃ c, s.contains c = true ∧ p.Reads c q := by
  obtain ⟨before, rest⟩ := p
  obtain ⟨before', rest'⟩ := q
  cases rest with
  | nil => simp [Point.read, Reads]
  | cons c rest =>
      by_cases hc : s.contains c = true
      · simp only [Point.read, hc, if_true, Option.some.injEq, Point.mk.injEq, Reads,
          List.cons.injEq]
        constructor
        · intro h
          exact ⟨c, hc, ⟨rfl, h.2⟩, h.1.symm⟩
        · intro h
          obtain ⟨d, _, ⟨rfl, hrest⟩, hbefore⟩ := h
          exact ⟨hbefore.symm, hrest⟩
      · simp only [Point.read, hc, Reads, List.cons.injEq]
        constructor
        · intro h
          cases h
        · intro h
          obtain ⟨d, hd, ⟨rfl, _⟩, _⟩ := h
          exact absurd hd hc

/-- Another round or the exit, the round first if greedy. -/
def either (greedy : Bool) (round exit : Way) : Way := fun p =>
  if greedy then (round p).or (exit p) else (exit p).or (round p)

/-- Up to a number of rounds. -/
def upTo (greedy : Bool) (round : Way → Way) : Nat → Way → Way
  | 0, exit => exit
  | n + 1, exit => either greedy (round (upTo greedy round n exit)) exit

/-- The number of rounds that may follow the least one. Where it has no bound, no more rounds than
there are characters can read something. -/
def moreRounds (least : Nat) (most : Option Nat) (p : Point) : Nat :=
  match most with
  | some most => most - least
  | none => p.rest.length + 1

mutual

/-- The end that is found first where what follows the expression goes on as given. -/
def prefer : Regex → Way → Way
  | .empty, way => way
  | .literal chars, way => chars.foldr (fun c way p => (p.read (.ofChar c)).bind way) way
  | .set s, way => fun p => (p.read s).bind way
  | .look condition, way => fun p => if condition.holds p.before p.rest.head? then way p else none
  | .times least most greedy body, way =>
    (prefer body)^[least] fun p => upTo greedy (prefer body) (moreRounds least most p) way p
  | .group _ body, way => prefer body way
  | .seq parts, way => preferParts parts way
  | .alt options, way => preferOptions options way

def preferParts : List Regex → Way → Way
  | [], way => way
  | r :: rs, way => prefer r (preferParts rs way)

def preferOptions : List Regex → Way → Way
  | [], _ => fun _ => none
  | r :: rs, way => fun p => (prefer r way p).or (preferOptions rs way p)

end

/-- The length of the match from the start of a text that is preferred. -/
def firstEnd (r : Regex) (text : List Char) : Option Nat :=
  (r.prefer some (.start text)).map fun q => byteLength text - byteLength q.rest

mutual

/-- Whether every round of a repetition without a bound is known to read something. -/
def loopsRead : Regex → Bool
  | .times _ most _ body => (most.isSome || body.neverEmpty) && loopsRead body
  | .group _ body => loopsRead body
  | .seq parts => allLoopsRead parts
  | .alt options => allLoopsRead options
  | _ => true

def allLoopsRead : List Regex → Bool
  | [] => true
  | r :: rs => loopsRead r && allLoopsRead rs

end

/-! ## Normal forms of sequences -/

theorem preferParts_eq (rs : List Regex) :
    preferParts rs = Sequential.all (· ∘ ·) id prefer rs := by
  induction rs with
  | nil => rfl
  | cons r rs ih =>
      show prefer r ∘ preferParts rs = prefer r ∘ _
      rw [ih]

theorem sequential_prefer : Sequential (· ∘ ·) id prefer where
  assoc _ _ _ := rfl
  unit_left _ := rfl
  unit_right _ := rfl
  empty := rfl
  literal _ _ := funext fun _ => List.foldr_append
  seq := preferParts_eq

theorem allLoopsRead_eq (rs : List Regex) :
    allLoopsRead rs = Sequential.all (· && ·) true loopsRead rs := by
  induction rs with
  | nil => rfl
  | cons r rs ih =>
      show (loopsRead r && allLoopsRead rs) = (loopsRead r && _)
      rw [ih]

theorem sequential_loopsRead : Sequential (· && ·) true loopsRead where
  assoc := Bool.and_assoc
  unit_left := Bool.true_and
  unit_right := Bool.and_true
  empty := rfl
  literal _ _ := rfl
  seq := allLoopsRead_eq

theorem prefer_textStart (r : Regex) (way : Way) (text : List Char) :
    prefer (ofParts [.look .textStart, r]) way (.start text) = prefer r way (.start text) := by
  rw [sequential_prefer.apply_ofParts]
  rfl

theorem loopsRead_textStart (r : Regex) :
    loopsRead (ofParts [.look .textStart, r]) = loopsRead r := by
  rw [sequential_loopsRead.apply_ofParts]
  exact Bool.and_true _

/-! ## Matches that read something -/

/-- The second point is behind the first one, by at least one character. -/
def Point.Before (p q : Point) : Prop := q.rest.length < p.rest.length

theorem Point.Reads.before {c : Char} {p q : Point} (h : p.Reads c q) : p.Before q := by
  unfold Before
  rw [h.1]
  exact Nat.lt_succ_self _

theorem readsAll_length {u : List Char} {p q : Point} (h : Point.ReadsAll u p q) :
    p.rest.length = u.length + q.rest.length := by
  rw [h.spec.1, List.length_append]

theorem Rounds.length_le {R : Point → Point → Prop} {n : Nat} {p q : Point}
    (hR : ∀ {p q}, R p q → q.rest.length ≤ p.rest.length) (h : Rounds R n p q) :
    q.rest.length ≤ p.rest.length := by
  induction n generalizing p with
  | zero =>
      cases h
      exact Nat.le_refl _
  | succ n ih =>
      obtain ⟨p', hfirst, hrounds⟩ := h
      exact Nat.le_trans (ih hrounds) (hR hfirst)

mutual

theorem length_le_of_matches : (r : Regex) → {p q : Point} → Matches r p q →
    q.rest.length ≤ p.rest.length
  | .empty, _, _, h => by
      cases h
      exact Nat.le_refl _
  | .literal chars, _, _, h => by
      have hlength := readsAll_length h
      omega
  | .set s, _, _, h => by
      obtain ⟨c, _, hreads⟩ := h
      exact Nat.le_of_lt hreads.before
  | .look condition, _, _, h => by
      cases h.1
      exact Nat.le_refl _
  | .times least most greedy body, _, _, h => by
      obtain ⟨n, _, _, hrounds⟩ := h
      exact hrounds.length_le (length_le_of_matches body)
  | .group _ body, _, _, h => length_le_of_matches body h
  | .seq parts, _, _, h => length_le_of_matchesParts parts h
  | .alt options, _, _, h => length_le_of_matchesOptions options h

theorem length_le_of_matchesParts : (rs : List Regex) → {p q : Point} → MatchesParts rs p q →
    q.rest.length ≤ p.rest.length
  | [], _, _, h => by
      cases h
      exact Nat.le_refl _
  | r :: rs, _, _, h => by
      obtain ⟨p', hr, hrs⟩ := h
      exact Nat.le_trans (length_le_of_matchesParts rs hrs) (length_le_of_matches r hr)

theorem length_le_of_matchesOptions : (rs : List Regex) → {p q : Point} →
    MatchesOptions rs p q → q.rest.length ≤ p.rest.length
  | r :: rs, _, _, h => by
      obtain h | h := h
      · exact length_le_of_matches r h
      · exact length_le_of_matchesOptions rs h

end

theorem neverEmpty_of_times {least : Nat} {most : Option Nat} {greedy : Bool} {body : Regex}
    (h : (times least most greedy body).neverEmpty = true) :
    0 < least ∧ body.neverEmpty = true := by
  have hlength : (body.minLength.map (· * least)).any (0 < ·) = true := h
  unfold neverEmpty
  cases hbody : body.minLength with
  | none => simp [hbody] at hlength
  | some n =>
      simp only [hbody, Option.map_some, Option.any_some, decide_eq_true_eq] at hlength ⊢
      exact ⟨Nat.pos_of_mul_pos_left hlength, Nat.pos_of_mul_pos_right hlength⟩

theorem neverEmpty_of_parts {r : Regex} {rs : List Regex}
    (h : (minLengthOfParts (r :: rs)).any (0 < ·) = true) :
    r.neverEmpty = true ∨ (minLengthOfParts rs).any (0 < ·) = true := by
  have hlength : (addLengths r.minLength (minLengthOfParts rs)).any (0 < ·) = true := h
  unfold neverEmpty
  cases hr : r.minLength with
  | none => simp [addLengths, hr] at hlength
  | some n =>
      cases hrs : minLengthOfParts rs with
      | none => simp [addLengths, hr, hrs] at hlength
      | some m =>
          simp only [addLengths, hr, hrs, Option.bind_some, Option.map_some, Option.any_some,
            decide_eq_true_eq] at hlength ⊢
          omega

theorem neverEmpty_of_options {r s : Regex} {rs : List Regex}
    (h : (minLengthOfOptions (r :: s :: rs)).any (0 < ·) = true) :
    r.neverEmpty = true ∧ (minLengthOfOptions (s :: rs)).any (0 < ·) = true := by
  have hlength : (r.minLength.bind fun a =>
      (minLengthOfOptions (s :: rs)).map fun b => if a < b then a else b).any (0 < ·) = true := h
  unfold neverEmpty
  cases hr : r.minLength with
  | none => simp [hr] at hlength
  | some n =>
      cases hrs : minLengthOfOptions (s :: rs) with
      | none => simp [hr, hrs] at hlength
      | some m =>
          simp only [hr, hrs, Option.bind_some, Option.map_some, Option.any_some,
            decide_eq_true_eq] at hlength ⊢
          split at hlength <;> omega

mutual

theorem before_of_matches : (r : Regex) → {p q : Point} → r.neverEmpty = true → Matches r p q →
    p.Before q
  | .empty, _, _, hread, _ => absurd hread (by decide)
  | .literal chars, _, _, hread, h => by
      have hlength := readsAll_length h
      cases chars with
      | nil => exact absurd hread (by decide)
      | cons c cs =>
          simp only [List.length_cons] at hlength
          unfold Point.Before
          omega
  | .set s, _, _, _, h => by
      obtain ⟨c, _, hreads⟩ := h
      exact hreads.before
  | .look condition, _, _, hread, _ => by
      have hlength : decide (0 < 0) = true := hread
      exact absurd hlength (by decide)
  | .times least most greedy body, _, _, hread, h => by
      obtain ⟨hleast, hbody⟩ := neverEmpty_of_times hread
      obtain ⟨n, hn, _, hrounds⟩ := h
      obtain ⟨n, rfl⟩ := Nat.exists_eq_succ_of_ne_zero (Nat.ne_of_gt (Nat.lt_of_lt_of_le hleast hn))
      obtain ⟨p', hfirst, hrounds⟩ := hrounds
      exact Nat.lt_of_le_of_lt (hrounds.length_le (length_le_of_matches body))
        (before_of_matches body hbody hfirst)
  | .group _ body, _, _, hread, h => before_of_matches body hread h
  | .seq parts, _, _, hread, h => before_of_matchesParts parts hread h
  | .alt options, _, _, hread, h => before_of_matchesOptions options hread h

theorem before_of_matchesParts : (rs : List Regex) → {p q : Point} →
    (minLengthOfParts rs).any (0 < ·) = true → MatchesParts rs p q → p.Before q
  | [], _, _, hread, _ => absurd hread (by decide)
  | r :: rs, _, _, hread, h => by
      obtain ⟨p', hr, hrs⟩ := h
      obtain hread | hread := neverEmpty_of_parts hread
      · exact Nat.lt_of_le_of_lt (length_le_of_matchesParts rs hrs) (before_of_matches r hread hr)
      · exact Nat.lt_of_lt_of_le (before_of_matchesParts rs hread hrs) (length_le_of_matches r hr)

theorem before_of_matchesOptions : (rs : List Regex) → {p q : Point} →
    (minLengthOfOptions rs).any (0 < ·) = true → MatchesOptions rs p q → p.Before q
  | [r], _, _, hread, h => before_of_matches r hread (h.resolve_right id)
  | r :: s :: rs, _, _, hread, h => by
      obtain ⟨hr, hrs⟩ := neverEmpty_of_options hread
      obtain h | h := h
      · exact before_of_matches r hr h
      · exact before_of_matchesOptions (s :: rs) hrs h

end

end Peg.Regex
