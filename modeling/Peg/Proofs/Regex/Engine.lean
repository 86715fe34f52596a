import Peg.Proofs.Regex.Agreement
import Peg.Proofs.Regex.Groups
import Peg.Proofs.Regex.Meaning

/-!
# What is used of regular expressions

Patterns are read and searched for by a library, for which `ofPattern?` and the automata stand. The
theory of patterns uses of it what `Engine` states and nothing else. Main statement: `engine`.

That a match from the start of the text is found without the condition to be there as well rests on a
comparison of the two automata, which share the states of the expression.
-/

namespace Peg.Regex

open Point

/-- The expression matches the first bytes of a text. -/
def MatchesFirst (r : Regex) (text : List Char) (n : Nat) : Prop :=
  ∃ u v, text = u ++ v ∧ byteLength u = n ∧ Matches r (.start text) ⟨u.getLast?, v⟩

/-- What a library for regular expressions is documented to do. -/
structure Engine (read? : List Char → Option Regex) (find : Regex → List Char → Option Nat) :
    Prop where
  /-- A group stands for the pattern in it. Only a comment can take its closing parenthesis, and there
  is a limit for how deep groups may be nested. -/
  group : ∀ {source : List Char} {r : Regex}, read? source = some r →
    read? (Pattern.anchored source) = some (ofParts [.look .textStart, r]) ∨
      read? (Pattern.anchored source) = none ∧ ('#' ∈ source ∨
        ∃ part, Pattern.part? source = some part ∧ Pattern.Part.deepest < part.depth + 2)
  /-- What begins at the start of the text is found there and nowhere else. -/
  sound : ∀ {r : Regex} {text : List Char} {n : Nat}, r.startsAtText = true →
    find r text = some n → r.MatchesFirst text n
  /-- If there is a match from there, one is found. -/
  complete : ∀ {r : Regex} {text : List Char}, r.startsAtText = true →
    (∃ n, r.MatchesFirst text n) → (find r text).isSome = true
  /-- Of the matches from there the preferred one is found: options are tried in order, and greedy
  repetitions go on as long as they can. -/
  first : ∀ {r : Regex}, r.startsAtText = true → r.loopsRead = true →
    ∀ text, find r text = r.firstEnd text
  /-- The leftmost match is found: one from the start of the text before all that begin later. Which of
  those from there it is, the order of options says only where every round of a repetition reads
  something, or where no condition waits for the next character. -/
  leftmost : ∀ {r : Regex} {text : List Char} {n : Nat},
    (r.loopsRead = true ∨ ∀ condition ∈ r.conditions, condition.looksBack = true) →
    find (ofParts [.look .textStart, r]) text = some n → find r text = some n

/-! ## The condition to be at the start of the text -/

theorem startsAtText_anchored (r : Regex) : (ofParts [.look .textStart, r]).startsAtText = true := by
  have hparts : (([.look .textStart, r].flatMap parts).filter (!·.isEmpty)).foldr consPart [] =
      .look .textStart :: ((r.parts.filter (!·.isEmpty)).foldr consPart []) := by
    simp [parts, isEmpty, consPart]
  unfold ofParts
  rw [hparts]
  cases (r.parts.filter (!·.isEmpty)).foldr consPart [] with
  | nil => rfl
  | cons => rfl

theorem matchesFirst_textStart {r : Regex} {text : List Char} {n : Nat} :
    (ofParts [.look .textStart, r]).MatchesFirst text n ↔ r.MatchesFirst text n := by
  refine exists_congr fun u => exists_congr fun v => and_congr_right fun _ => and_congr_right fun _ => ?_
  rw [matches_textStart]
  exact and_iff_right rfl

theorem firstEnd_textStart (r : Regex) (text : List Char) :
    (ofParts [.look .textStart, r]).firstEnd text = r.firstEnd text := by
  unfold firstEnd
  rw [prefer_textStart]

/-! ## Expressions that begin there -/

section StartsAtText

variable {r : Regex} (h : r.startsAtText = true)
include h

theorem endsAt_start_iff (text : List Char) (n : Nat) :
    (Automaton.ofRegex r).EndsAt [(Automaton.ofRegex r).start] (.start text) 0 n ↔
      r.MatchesFirst text n := by
  have hreaches := fun q => Automaton.reaches_start_iff (p := .start text) (q := q) h
  constructor
  · intro hends
    obtain ⟨s, hs, q, hq, hlength⟩ := hends
    cases List.mem_singleton.1 hs
    have hmatches := (hreaches q).1 hq
    obtain ⟨k, t, hpath, _⟩ := hq
    obtain ⟨u, hu⟩ := hpath.exists_readsAll
    obtain ⟨hrest, hbefore⟩ := hu.spec
    obtain ⟨before, rest⟩ := q
    have htext : text = u ++ rest := hrest
    have hlast : before = u.getLast? := hbefore.trans Option.or_none
    refine ⟨u, rest, htext, ?_, hlast ▸ hmatches⟩
    have hsum : n + byteLength rest = 0 + byteLength text := hlength
    rw [htext, byteLength_append] at hsum
    omega
  · intro hfirst
    obtain ⟨u, v, rfl, rfl, hmatches⟩ := hfirst
    refine ⟨_, List.mem_singleton_self _, _, (hreaches _).2 hmatches, ?_⟩
    show byteLength u + byteLength v = 0 + byteLength (u ++ v)
    rw [byteLength_append, Nat.zero_add]

theorem findEnd_sound {text : List Char} {n : Nat}
    (hn : (Automaton.ofRegex r).findEnd text = some n) : r.MatchesFirst text n := by
  obtain hbest | hends := ((Automaton.ofRegex r).findEnd_finds text).sound hn
  · cases hbest
  · exact (endsAt_start_iff h text n).1 hends

theorem findEnd_complete {text : List Char} (hmatches : ∃ n, r.MatchesFirst text n) :
    ((Automaton.ofRegex r).findEnd text).isSome = true := by
  obtain ⟨n, hmatches⟩ := hmatches
  obtain ⟨s, hs, q, hreaches, _⟩ := (endsAt_start_iff h text n).2 hmatches
  exact ((Automaton.ofRegex r).findEnd_finds text).complete (.inr ⟨q, s, hs, hreaches⟩)

theorem findEnd_eq_firstEnd (hread : r.loopsRead = true) (text : List Char) :
    (Automaton.ofRegex r).findEnd text = r.firstEnd text := by
  have hruns := Automaton.runs_start h hread (.start text)
  have hhalts : ∀ n ∈ [(Automaton.ofRegex r).start], (Automaton.ofRegex r).Halts n (.start text) := by
    intro n hn
    cases List.mem_singleton.1 hn
    exact ⟨_, hruns⟩
  rw [((Automaton.ofRegex r).findEnd_finds text).first hhalts, Automaton.findSome?_cons_or,
    hruns.outcome_eq]
  simp only [List.findSome?_nil, Option.or_none]
  refine congrArg (Option.map · _) (funext fun q => ?_)
  show 0 + byteLength text - byteLength q.rest = _
  rw [Nat.zero_add]

end StartsAtText

/-! ## The automaton of the expression by itself -/

section Alone

variable (r : Regex) {holds : Look → Bool} {text : List Char} {e : Nat}

theorem closed_build : (Automaton.build r (#[.accept], 0)).Closed fun _ => True :=
  (Automaton.build_closed r (fun _ _ => trivial) _ Automaton.closed_accept).toClosed

theorem whole_anchored : Automaton.whole (ofParts [.look .textStart, r]) =
    (Automaton.build r (#[.accept], 0)).add fun next => .look .textStart next := by
  unfold Automaton.whole
  rw [startsAtText_anchored, Automaton.build_textStart]
  rfl

theorem agrees_anchored : Automaton.Agrees (.ofRegex (ofParts [.look .textStart, r])) (.ofRegex r)
    (Automaton.build r (#[.accept], 0)).1.size := by
  refine Automaton.agrees_of_extends (closed_build r) ?_ (Automaton.extends_whole r).same
  intro n hn
  show (Automaton.whole (ofParts [.look .textStart, r])).1[n]? = _
  rw [whole_anchored]
  exact ((Automaton.Extends.refl (Automaton.ready_build r)).add _).same n hn

theorem state_anchored :
    (Automaton.ofRegex (ofParts [.look .textStart, r])).state
        (Automaton.build r (#[.accept], 0)).1.size =
      .look .textStart (Automaton.build r (#[.accept], 0)).2 := by
  show (Automaton.whole (ofParts [.look .textStart, r])).1[_]?.getD AutomatonState.fail = _
  rw [whole_anchored]
  simp [Automaton.Stage.add]

theorem reach_anchored (hholds : holds .textStart = true) :
    (Automaton.ofRegex (ofParts [.look .textStart, r])).reach holds
        [(Automaton.build r (#[.accept], 0)).1.size] =
      (Automaton.build r (#[.accept], 0)).1.size ::
        (Automaton.ofRegex (ofParts [.look .textStart, r])).reach holds
          [(Automaton.build r (#[.accept], 0)).2] := by
  have hself : Automaton.Agrees (.ofRegex (ofParts [.look .textStart, r])) _ _ :=
    ⟨fun _ _ => rfl, (agrees_anchored r).within⟩
  obtain ⟨extra, hreach, hnil⟩ := hself.exists_reach_cons holds []
    (Nat.le_refl _) (by simp [Automaton.waysOf, state_anchored, hholds]) (Automaton.ready_build r)
  rw [hreach, hnil rfl, if_pos (Automaton.isListed_of_look (state_anchored r)), List.append_nil]
  rfl

theorem exists_reach_alone (holds : Look → Bool) : ∃ extra,
    (Automaton.ofRegex r).reach holds [(Automaton.ofRegex r).start] =
      (Automaton.ofRegex (ofParts [.look .textStart, r])).reach holds
        [(Automaton.build r (#[.accept], 0)).2] ++ extra := by
  have hready : (Automaton.build r (#[.accept], 0)).2 < _ := Automaton.ready_build r
  obtain hstart | ⟨_, hstart, entry, s, hsplit, _⟩ := Automaton.ofRegex_start r
  · rw [hstart]
    obtain ⟨extra, hreach, _⟩ := (agrees_anchored r).exists_reach holds []
      (List.forall_mem_singleton.2 hready)
    exact ⟨extra, hreach⟩
  · obtain ⟨extra, hreach, _⟩ := (agrees_anchored r).exists_reach_cons holds [entry]
      hstart (by simp [Automaton.waysOf, hsplit]) hready
    have hunlisted : ¬ (Automaton.ofRegex r).IsListed (Automaton.ofRegex r).start := by
      simp [Automaton.IsListed, hsplit]
    rw [if_neg hunlisted, List.nil_append] at hreach
    exact ⟨extra, hreach⟩

theorem search_anchored
    (hfound : (Automaton.ofRegex (ofParts [.look .textStart, r])).search text = some e) :
    (Automaton.ofRegex r).search text = some e := by
  have hstart : (Automaton.ofRegex (ofParts [.look .textStart, r])).start =
      (Automaton.build r (#[.accept], 0)).1.size := by
    show (Automaton.whole (ofParts [.look .textStart, r])).2 = _
    rw [whole_anchored]
    rfl
  unfold Automaton.search at hfound ⊢
  rw [hstart, reach_anchored r rfl, Automaton.searchFrom_cons (state_anchored r)] at hfound
  obtain ⟨extra, hextra⟩ := exists_reach_alone r (·.holds none text.head?)
  have hlisted := (agrees_anchored r).lt_of_mem_reach (·.holds none text.head?)
    (List.forall_mem_singleton.2 (Automaton.ready_build r))
  rw [hextra]
  exact (agrees_anchored r).searchFrom_eq_some hlisted hfound (.inr rfl)

theorem findEnd_alone_of_looksBack
    (hback : ∀ condition ∈ r.conditions, condition.looksBack = true)
    (hfound : (Automaton.ofRegex (ofParts [.look .textStart, r])).findEnd text = some e) :
    (Automaton.ofRegex r).findEnd text = some e := by
  have hanchored : ∀ condition ∈ (ofParts [.look .textStart, r]).conditions,
      condition.looksBack = true := by
    rw [conditions_textStart]
    exact List.forall_mem_cons.2 ⟨rfl, hback⟩
  rw [Automaton.findEnd_eq_search (Automaton.looksBack_ofRegex hback)]
  rw [Automaton.findEnd_eq_search (Automaton.looksBack_ofRegex hanchored)] at hfound
  exact search_anchored r hfound

theorem findEnd_alone_of_loopsRead (hread : r.loopsRead = true)
    (hfirst : r.firstEnd text = some e) : (Automaton.ofRegex r).findEnd text = some e := by
  obtain ⟨q, hq, hlength⟩ := Option.map_eq_some_iff.1 hfirst
  obtain ⟨later, hruns⟩ := Automaton.exists_runs_start hread none text
  have hruns : (Automaton.ofRegex r).Runs (Automaton.ofRegex r).start (.start text)
      ((r.prefer some (.start text)).or later) := hruns
  rw [hq, Option.some_or] at hruns
  have hfinds := (Automaton.ofRegex r).findEnd_finds text
  rw [hfinds.first fun n hn => List.mem_singleton.1 hn ▸ ⟨_, hruns⟩, Automaton.findSome?_cons_or,
    hruns.outcome_eq]
  show some (0 + byteLength text - byteLength q.rest) = some e
  rw [Nat.zero_add, hlength]

theorem findEnd_alone
    (h : r.loopsRead = true ∨ ∀ condition ∈ r.conditions, condition.looksBack = true)
    (hfound : (Automaton.ofRegex (ofParts [.look .textStart, r])).findEnd text = some e) :
    (Automaton.ofRegex r).findEnd text = some e := by
  obtain hread | hback := h
  · have hanchored := findEnd_eq_firstEnd (startsAtText_anchored r)
      ((loopsRead_textStart r).trans hread) text
    rw [firstEnd_textStart, hfound] at hanchored
    exact findEnd_alone_of_loopsRead r hread hanchored.symm
  · exact findEnd_alone_of_looksBack r hback hfound

end Alone

/-! ## Groups -/

theorem ofPattern?_eq (source : List Char) :
    ofPattern? source = (Pattern.part? source).bind fun part =>
      if part.depth ≤ Pattern.Part.deepest then some part.regex else none := rfl

theorem ofPattern?_anchored {source : List Char} {r : Regex} (hr : ofPattern? source = some r) :
    ofPattern? (Pattern.anchored source) = some (ofParts [.look .textStart, r]) ∨
      ofPattern? (Pattern.anchored source) = none ∧ ('#' ∈ source ∨
        ∃ part, Pattern.part? source = some part ∧ Pattern.Part.deepest < part.depth + 2) := by
  obtain ⟨part, hpart, hdeep⟩ := Option.bind_eq_some_iff.1 hr
  have hregex : part.regex = r := by
    split at hdeep
    · exact Option.some.inj hdeep
    · cases hdeep
  subst hregex
  rw [ofPattern?_eq]
  obtain hgroup | ⟨hsign, hgroup⟩ := Pattern.part?_anchored hpart
  · rw [hgroup, Option.bind_some]
    by_cases hdepth : part.depth + 2 ≤ Pattern.Part.deepest
    · exact .inl (if_pos hdepth)
    · exact .inr ⟨if_neg hdepth, .inr ⟨part, hpart, Nat.lt_of_not_le hdepth⟩⟩
  · rw [hgroup]
    exact .inr ⟨rfl, .inl hsign⟩

theorem engine : Engine ofPattern? fun r => (Automaton.ofRegex r).findEnd where
  group := ofPattern?_anchored
  sound h := findEnd_sound h
  complete h := findEnd_complete h
  first := findEnd_eq_firstEnd
  leftmost h := findEnd_alone _ h

end Peg.Regex
