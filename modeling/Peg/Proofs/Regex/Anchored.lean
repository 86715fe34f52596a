import Peg.Proofs.Regex.Engine

/-!
# Patterns that match at their place

A pattern that is well-formed by itself is refused in its group only where the group makes it nested
too deep or too large, or where it may end inside a comment. Where it is accepted, it matches exactly
from the start of the text: every end that is found is the end of a match that begins there, and one is
found if there is one. It is the preferred one where no repetition can go on without reading. There, and
where the character before a point decides every condition, the automaton of the pattern by itself finds
the same. Where neither is the case the group can change the order in which states are listed. Main
statement: `Pattern.anchored?_spec`.

A pattern that is not well-formed by itself can still be accepted, when it closes the group that was
meant to hold it. What stands outside is not tied to the start of the text
(`Pattern.anchored?_unbalanced`).
-/

namespace Peg

namespace Pattern

open Regex (engine)
open Regex.Pattern (Part part?)

theorem toList_anchored (source : String) :
    ("^(?:" ++ source ++ ")").toList = Regex.Pattern.anchored source.toList := by
  simp [Regex.Pattern.anchored]

theorem anchored?_cases {source : String} {r : Regex}
    (hr : Regex.ofPattern? source.toList = some r) :
    (∃ p, anchored? source = some p ∧
        p.automaton = .ofRegex (.ofParts [.look .textStart, r])) ∨
      (anchored? source = none ∧
        ('#' ∈ source.toList ∨
          (∃ part, part? source.toList = some part ∧ Part.deepest < part.depth + 2) ∨
          (Regex.ofParts [.look .textStart, r]).isSmall = false)) := by
  unfold anchored? ofSource?
  rw [toList_anchored]
  obtain hgroup | ⟨hrefused, hwhy⟩ := engine.group hr
  · rw [hgroup]
    cases hsmall : (Regex.ofParts [.look .textStart, r]).isSmall with
    | true =>
        let p : Pattern := ⟨"^(?:" ++ source ++ ")", .ofRegex (.ofParts [.look .textStart, r])⟩
        exact .inl ⟨p, by simp [hsmall, p], rfl⟩
    | false => exact .inr ⟨by simp [hsmall], .inr (.inr rfl)⟩
  · rw [hrefused]
    exact .inr ⟨rfl, hwhy.imp_right .inl⟩

/-- A pattern that is well-formed by itself is accepted as a terminal unless its group makes it nested
too deep or too large or can end inside a comment, and the terminal then matches exactly the beginnings
of a text that the pattern matches: none of its matches begins later, and it fails only if there is
none from the start. Where every repetition without a bound reads something in each round the match is
the one that the pattern prefers. There, and where the character before decides every condition, it is
also the one that the automaton of the pattern by itself finds. -/
theorem anchored?_spec {source : String} {r : Regex}
    (hr : Regex.ofPattern? source.toList = some r) :
    (anchored? source = none →
      '#' ∈ source.toList ∨
        (∃ part, part? source.toList = some part ∧ Part.deepest < part.depth + 2) ∨
        (Regex.ofParts [.look .textStart, r]).isSmall = false) ∧
    ∀ p, anchored? source = some p →
      p.automaton = .ofRegex (.ofParts [.look .textStart, r]) ∧
      ∀ text,
        (∀ n, (Matcher.pattern p).matchAt text = some n → r.MatchesFirst text n) ∧
        ((∃ n, r.MatchesFirst text n) → ((Matcher.pattern p).matchAt text).isSome = true) ∧
        (r.loopsRead = true → (Matcher.pattern p).matchAt text = r.firstEnd text) ∧
        ((r.loopsRead = true ∨ ∀ condition ∈ r.conditions, condition.looksBack = true) →
          (∃ n, r.MatchesFirst text n) →
          (Matcher.pattern p).matchAt text = (Automaton.ofRegex r).findEnd text) := by
  obtain ⟨accepted, haccepted, hautomaton⟩ | ⟨hrefused, hwhy⟩ := anchored?_cases hr
  · refine ⟨fun hnone => by simp [haccepted] at hnone, fun p hp => ?_⟩
    cases Option.some.inj (haccepted.symm.trans hp)
    refine ⟨hautomaton, fun text => ?_⟩
    show (∀ n, accepted.automaton.findEnd text = some n → _) ∧
      (_ → (accepted.automaton.findEnd text).isSome = true) ∧
      (_ → accepted.automaton.findEnd text = _) ∧ (_ → _ → accepted.automaton.findEnd text = _)
    rw [hautomaton]
    have hstarts := Regex.startsAtText_anchored r
    have hcomplete : (∃ n, r.MatchesFirst text n) →
        ((Automaton.ofRegex (.ofParts [.look .textStart, r])).findEnd text).isSome = true :=
      fun ⟨n, hn⟩ => engine.complete hstarts ⟨n, Regex.matchesFirst_textStart.2 hn⟩
    refine ⟨fun n hn => Regex.matchesFirst_textStart.1 (engine.sound hstarts hn), hcomplete, ?_, ?_⟩
    · intro hread
      exact (engine.first hstarts ((Regex.loopsRead_textStart r).trans hread) text).trans
        (Regex.firstEnd_textStart r text)
    · intro hsame hmatches
      obtain ⟨e, he⟩ := Option.isSome_iff_exists.1 (hcomplete hmatches)
      exact he.trans (engine.leftmost hsame he).symm
  · exact ⟨fun _ => hwhy, fun p hp => by simp [hrefused] at hp⟩

/-- Two patterns in their groups. In the second one a round can read nothing. -/
theorem anchored?_spec_words :
    (∃ r p, Regex.ofPattern? "a|ab*".toList = some r ∧ anchored? "a|ab*" = some p ∧
      (Matcher.pattern p).matchAt "abb".toList = some 1 ∧ r.MatchesFirst "abb".toList 1 ∧
      r.loopsRead = true ∧ r.firstEnd "abb".toList = some 1 ∧
      (Matcher.pattern p).matchAt "cab".toList = none ∧ ¬ ∃ n, r.MatchesFirst "cab".toList n) ∧
    ∃ r p, Regex.ofPattern? "(?:^b*|a)*".toList = some r ∧ anchored? "(?:^b*|a)*" = some p ∧
      r.loopsRead = false ∧ (∀ condition ∈ r.conditions, condition.looksBack = true) ∧
      (Matcher.pattern p).matchAt "ba".toList = some 2 ∧
      (Automaton.ofRegex r).findEnd "ba".toList = some 2 := by
  constructor
  · have hvalid : (Regex.ofPattern? "a|ab*".toList).map Regex.loopsRead = some true := by
      decide +kernel
    have haccepted : (anchored? "a|ab*").isSome = true := by decide +kernel
    have hfound : (anchored? "a|ab*").map (fun p => (Matcher.pattern p).matchAt "abb".toList) =
        some (some 1) := by decide +kernel
    have hmissed : (anchored? "a|ab*").map (fun p => (Matcher.pattern p).matchAt "cab".toList) =
        some none := by decide +kernel
    obtain ⟨r, hr, hread⟩ := Option.map_eq_some_iff.1 hvalid
    obtain ⟨p, hp⟩ := Option.isSome_iff_exists.1 haccepted
    rw [hp, Option.map_some, Option.some.injEq] at hfound hmissed
    have hspec := ((anchored?_spec hr).2 p hp).2
    obtain ⟨hsound, _, hfirst, _⟩ := hspec "abb".toList
    refine ⟨r, p, hr, hp, hfound, hsound 1 hfound, hread, (hfirst hread).symm.trans hfound, hmissed,
      fun hmatches => ?_⟩
    have hsome := (hspec "cab".toList).2.1 hmatches
    rw [hmissed] at hsome
    cases hsome
  · have hvalid : (Regex.ofPattern? "(?:^b*|a)*".toList).map
        (fun r => (r.loopsRead, r.conditions.all Look.looksBack)) = some (false, true) := by
      decide +kernel
    have hfound : (anchored? "(?:^b*|a)*").map
        (fun p => (Matcher.pattern p).matchAt "ba".toList) = some (some 2) := by decide +kernel
    obtain ⟨r, hr, hconditions⟩ := Option.map_eq_some_iff.1 hvalid
    obtain ⟨p, hp, hend⟩ := Option.map_eq_some_iff.1 hfound
    obtain ⟨hread, hback⟩ := Prod.mk.injEq .. ▸ hconditions
    obtain ⟨hsound, _, _, halone⟩ := ((anchored?_spec hr).2 p hp).2 "ba".toList
    have hback := List.all_eq_true.1 hback
    exact ⟨r, p, hr, hp, hread, hback, hend,
      (halone (.inr hback) ⟨2, hsound 2 hend⟩).symm.trans hend⟩

/-- A condition on the next character in a round that can read nothing: the group changes what is
preferred. -/
example :
    (anchored? "(?:\\b|a)*").map (fun p => (Matcher.pattern p).matchAt "a".toList) =
        some (some 0) ∧
      (Regex.ofPattern? "(?:\\b|a)*".toList).map
        (fun r => (Automaton.ofRegex r).findEnd "a".toList) = some (some 1) := by decide +kernel

/-- The pattern `a)|(b` is malformed and accepted, and it matches where a `b` comes later. -/
theorem anchored?_unbalanced :
    Regex.ofPattern? "a)|(b".toList = none ∧
      ∃ p, anchored? "a)|(b" = some p ∧ (Matcher.pattern p).matchAt "xb".toList = some 2 := by
  have hmalformed : (Regex.ofPattern? "a)|(b".toList).isNone = true := by decide +kernel
  have haccepted : (anchored? "a)|(b").isSome = true := by decide +kernel
  have hfound : (anchored? "a)|(b").map (fun p => (Matcher.pattern p).matchAt "xb".toList) =
      some (some 2) := by decide +kernel
  obtain ⟨p, hp⟩ := Option.isSome_iff_exists.1 haccepted
  rw [hp, Option.map_some, Option.some.injEq] at hfound
  exact ⟨Option.isNone_iff_eq_none.1 hmalformed, p, hp, hfound⟩

end Pattern

end Peg
