import Peg.Proofs.Regex.Construction
import Peg.Proofs.Regex.Outcomes
import Peg.Proofs.Regex.Paths

/-!
# The meaning of automata

Where an automaton spells an expression out between two states, the paths between them read what the
expression matches, and it prefers what the expression prefers (`Carries`). Main statements:
`Automaton.reaches_start_iff` and `Automaton.runs_start`.
-/

namespace Peg.Automaton

open Regex (Point Way Rounds AnyRounds RoundsUpTo Matches MatchesParts MatchesOptions either upTo prefer
  preferParts preferOptions loopsRead allLoopsRead)

variable {a : Automaton} {ok : Prop} {n m entry exit k : Nat} {p q : Point}
  {R S : Point → Point → Prop} {F G : Way → Way} {P : Nat → Nat → Prop} {greedy : Bool}

/-- The paths from the entry to the exit read what is related, and what is preferred is as given if the
repetitions are as they have to be. -/
structure Carries (a : Automaton) (ok : Prop) (entry exit : Nat) (R : Point → Point → Prop)
    (F : Way → Way) : Prop where
  links : Links a entry exit R
  prefers : ok → Prefers a entry exit R F

namespace Carries

theorem refl (a : Automaton) (ok : Prop) (n : Nat) : Carries a ok n n Eq id :=
  ⟨.refl a n, fun _ => .refl a n⟩

theorem congr (h : Carries a ok entry exit R F) (hRS : ∀ p q, R p q ↔ S p q) :
    Carries a ok entry exit S F :=
  ⟨h.links.congr hRS, fun hok => (h.prefers hok).mono fun p q => (hRS p q).1⟩

theorem comp (h : Carries a ok entry m S G) (h' : Carries a ok m exit R F) :
    Carries a ok entry exit (Relation.Comp S R) (G ∘ F) :=
  ⟨h.links.comp h'.links, fun hok => (h.prefers hok).comp (h'.prefers hok)⟩

theorem read {s : CharSet} (hn : a.state n = .read s exit) :
    Carries a ok n exit (fun p q => ∃ c, s.contains c = true ∧ p.Reads c q)
      fun way p => (p.read s).bind way :=
  ⟨.single (by simp [hn]) fun p m q => by simp [Steps, hn], fun _ => .read hn⟩

theorem look {condition : Look} (hn : a.state n = .look condition exit) :
    Carries a ok n exit (fun p q => p = q ∧ p.Satisfies condition)
      fun way p => if holdsAt p condition then way p else none :=
  ⟨.single (by simp [hn]) fun p m q => by simp [Steps, hn], fun _ => .look hn⟩

theorem fail (hn : a.state n = .fail) :
    Carries a ok n exit (fun _ _ => False) fun _ _ => none :=
  ⟨.single (by simp [hn]) fun p m q => by simp [Steps, hn], fun _ => ⟨fun _ => .fail hn⟩⟩

theorem split {first second : Nat} (hn : a.state n = .split first second)
    (h : Carries a ok first exit R F) (h' : Carries a ok second exit S G) :
    Carries a ok n exit (fun p q => R p q ∨ S p q) fun way p => (F way p).or (G way p) :=
  ⟨.split hn h.links h'.links, fun hok => .split hn (h.prefers hok) (h'.prefers hok)⟩

theorem skips (hP : ∀ {x y}, P x y → Carries a ok x y R F) (h : a.Skips greedy P n exit) :
    Carries a ok n exit (fun p q => p = q ∨ R p q) fun way => either greedy (F way) way := by
  obtain ⟨entry, hn, hentry⟩ := h
  exact ⟨.skip hn (hP hentry).links, fun hok => .skip hn ((hP hentry).prefers hok)⟩

theorem loops (hP : ∀ {x y}, P x y → Carries a ok x y R F)
    (hR : ok → ∀ p q, R p q → p.Before q) (h : a.Loops greedy P n exit) :
    Carries a ok n exit (AnyRounds R) fun way p => upTo greedy F (p.rest.length + 1) way p := by
  obtain ⟨entry, hn, hentry⟩ := h
  exact ⟨.loop hn (hP hentry).links, fun hok => .loop hn ((hP hentry).prefers hok) (hR hok)⟩

theorem rounds (hP : ∀ {x y}, P x y → Carries a ok x y R F) (h : Rounds P k n m) :
    Carries a ok n m (Rounds R k) F^[k] := by
  induction k generalizing n with
  | zero =>
      cases h
      exact .refl a ok _
  | succ k ih =>
      obtain ⟨x, hfirst, hrounds⟩ := h
      rw [Function.iterate_succ']
      exact (hP hfirst).comp (ih hrounds)

theorem skipsRounds (hP : ∀ {x y}, P x y → Carries a ok x y R F)
    (h : a.SkipsRounds greedy P k n m) :
    Carries a ok n m (RoundsUpTo R k) (upTo greedy F k) := by
  induction k generalizing n m with
  | zero =>
      cases h
      rw [Regex.roundsUpTo_zero]
      exact .refl a ok _
  | succ k ih =>
      have hround : ∀ {n m}, Relation.Comp P (a.SkipsRounds greedy P k) n m →
          Carries a ok n m (Relation.Comp R (RoundsUpTo R k)) (F ∘ upTo greedy F k) := by
        intro n m h
        obtain ⟨x, hfirst, hrounds⟩ := h
        exact (hP hfirst).comp (ih hrounds)
      exact (skips hround h).congr (Regex.roundsUpTo_succ_iff k)

end Carries

/-! ## Expressions -/

theorem contains_ofChar (c d : Char) : (CharSet.ofChar c).contains d = true ↔ d = c := by
  simp [CharSet.contains, CharSet.ofChar, Unicode.Ranges.contains, ← Char.toNat_inj]
  omega

theorem carries_chars (chars : List Char) (h : a.SpellsChars chars n m) :
    Carries a ok n m (Matches (.literal chars)) (prefer (.literal chars)) := by
  induction chars generalizing n with
  | nil =>
      cases h
      exact .refl a ok _
  | cons c cs ih =>
      obtain ⟨x, hn, hrest⟩ := h
      refine Carries.comp ((Carries.read hn).congr fun p q => ?_) (ih hrest)
      simp [contains_ofChar]

theorem carries_times {body : Regex} (least : Nat) (most : Option Nat)
    (hbody : ∀ {n m}, a.Spells body n m → Carries a ok n m (Matches body) (prefer body))
    (hok : ok → loopsRead (.times least most greedy body) = true)
    (h : a.Spells (.times least most greedy body) n m) :
    Carries a ok n m (Matches (.times least most greedy body))
      (prefer (.times least most greedy body)) := by
  simp only [Spells] at h
  cases most with
  | some most =>
      obtain ⟨x, hleast, hmore⟩ := h
      refine ((Carries.rounds hbody hleast).comp (.skipsRounds hbody hmore)).congr fun p q => ?_
      have hbounds : ∀ n, n ≤ least + (most - least) ↔ n ≤ max least most := by omega
      rw [Regex.rounds_comp_roundsUpTo_iff]
      simp [Matches, hbounds]
  | none =>
      have hread : ok → body.neverEmpty = true := by
        intro h
        simpa [loopsRead] using (Bool.and_eq_true_iff.1 (hok h)).1
      have hloop : ∀ {n m}, a.Loops greedy (a.Spells body) n m → Carries a ok n m
          (AnyRounds (Matches body)) fun way p => upTo greedy (prefer body) (p.rest.length + 1) way p :=
        .loops hbody fun h p q => Regex.before_of_matches body (hread h)
      have hrounds : ∀ {n m}, Relation.Comp (a.Spells body) (a.Loops greedy (a.Spells body)) n m →
          Carries a ok n m (Relation.Comp (Matches body) (AnyRounds (Matches body)))
            (prefer body ∘ fun way p => upTo greedy (prefer body) (p.rest.length + 1) way p) := by
        intro n m h
        obtain ⟨x, hfirst, hrest⟩ := h
        exact (hbody hfirst).comp (hloop hrest)
      cases least with
      | zero =>
          have hany : ∀ p q, AnyRounds (Matches body) p q ↔
              Matches (.times 0 none greedy body) p q := by
            simp [Matches, AnyRounds]
          by_cases hempty : body.neverEmpty = true
          · simp only [SpellsTimes, hempty, if_true] at h
            exact (hloop h).congr hany
          · simp only [SpellsTimes, hempty] at h
            refine ⟨((Carries.skips hrounds h).congr Regex.anyRounds_iff |>.congr hany).links, ?_⟩
            exact fun h => absurd (hread h) hempty
      | succ least =>
          obtain ⟨x, hleast, hmore⟩ := h
          refine ((Carries.rounds hbody hleast).comp (hrounds hmore)).congr fun p q => ?_
          have heq := Regex.rounds_comp_anyRounds_iff (R := Matches body) (least + 1) p q
          rw [Regex.rounds_add, Regex.rounds_one, Relation.comp_assoc] at heq
          rw [heq]
          simp [Matches]

mutual

theorem spells_carries : (r : Regex) → {n m : Nat} → (ok → loopsRead r = true) →
    a.Spells r n m → Carries a ok n m (Matches r) (prefer r)
  | .empty, _, _, _, h => by
      cases h
      exact .refl a ok _
  | .literal chars, _, _, _, h => carries_chars chars h
  | .set s, _, _, _, h => .read h
  | .look condition, _, _, _, h => .look h
  | .times least most greedy body, _, _, hok, h =>
      carries_times least most
        (spells_carries body fun h => (Bool.and_eq_true_iff.1 (hok h)).2) hok h
  | .group _ body, _, _, hok, h => spells_carries body hok h
  | .seq parts, _, _, hok, h => spellsParts_carries parts hok h
  | .alt options, _, _, hok, h => spellsOptions_carries options hok h

theorem spellsParts_carries : (rs : List Regex) → {n m : Nat} → (ok → allLoopsRead rs = true) →
    a.SpellsParts rs n m → Carries a ok n m (MatchesParts rs) (preferParts rs)
  | [], _, _, _, h => by
      cases h
      exact .refl a ok _
  | r :: rs, _, _, hok, h => by
      obtain ⟨x, hr, hrs⟩ := h
      exact (spells_carries r (fun h => (Bool.and_eq_true_iff.1 (hok h)).1) hr).comp
        (spellsParts_carries rs (fun h => (Bool.and_eq_true_iff.1 (hok h)).2) hrs)

theorem spellsOptions_carries : (rs : List Regex) → {n m : Nat} →
    (ok → allLoopsRead rs = true) → a.SpellsOptions rs n m →
    Carries a ok n m (MatchesOptions rs) (preferOptions rs)
  | [], _, _, _, h => .fail h
  | [r], _, _, hok, h => by
      have hprefer : preferOptions [r] = prefer r := funext fun _ => funext fun _ => Option.or_none
      rw [hprefer]
      refine (spells_carries r (fun h => (Bool.and_eq_true_iff.1 (hok h)).1) h).congr fun p q => ?_
      simp [MatchesOptions]
  | r :: s :: rs, _, _, hok, h => by
      obtain ⟨first, second, hn, hr, hrs⟩ := h
      exact .split hn (spells_carries r (fun h => (Bool.and_eq_true_iff.1 (hok h)).1) hr)
        (spellsOptions_carries (s :: rs) (fun h => (Bool.and_eq_true_iff.1 (hok h)).2) hrs)

end

/-! ## Whole automata -/

theorem start_eq {r : Regex} (h : r.startsAtText = true) :
    (ofRegex r).start = (build r (#[.accept], 0)).2 := by
  obtain hstart | ⟨hstarts, _⟩ := ofRegex_start r
  · exact hstart
  · rw [h] at hstarts
    cases hstarts

/-- The automaton of an expression that begins with the start of the text accepts where the
expression matches. -/
theorem reaches_start_iff {r : Regex} (h : r.startsAtText = true) :
    (ofRegex r).Reaches (ofRegex r).start p q ↔ Matches r p q := by
  obtain ⟨haccept, hspells⟩ := ofRegex_spells r
  rw [← start_eq h] at hspells
  have hcarries : Carries (ofRegex r) False (ofRegex r).start 0 (Matches r) (prefer r) :=
    spells_carries r False.elim hspells
  constructor
  · intro hreaches
    obtain ⟨k, t, hpath, ht⟩ := hreaches
    obtain ⟨m, j, _, hmatches, hleft⟩ := hcarries.links.sound hpath ht
    exact hleft.eq_of_accept haccept ▸ hmatches
  · intro hmatches
    obtain ⟨k, hpath⟩ := hcarries.links.complete hmatches
    exact ⟨k, 0, hpath, haccept⟩

theorem runs_build {r : Regex} (hread : r.loopsRead = true) (p : Point) :
    (ofRegex r).Runs (build r (#[.accept], 0)).2 p (r.prefer some p) := by
  obtain ⟨haccept, hspells⟩ := ofRegex_spells r
  have hcarries : Carries (ofRegex r) True (build r (#[.accept], 0)).2 0 (Matches r) (prefer r) :=
    spells_carries r (fun _ => hread) hspells
  exact (hcarries.prefers trivial).runs fun q _ => .accept haccept

theorem runs_start {r : Regex} (h : r.startsAtText = true) (hread : r.loopsRead = true) (p : Point) :
    (ofRegex r).Runs (ofRegex r).start p (r.prefer some p) :=
  start_eq h ▸ runs_build hread p

theorem exists_runs_start {r : Regex} (hread : r.loopsRead = true) (before : Option Char)
    (text : List Char) :
    ∃ later, (ofRegex r).Runs (ofRegex r).start ⟨before, text⟩
      ((r.prefer some ⟨before, text⟩).or later) := by
  obtain hstart | ⟨_, _, entry, s, hsplit, hentry⟩ := ofRegex_start r
  · rw [hstart]
    exact ⟨none, Option.or_none ▸ runs_build hread _⟩
  · induction text generalizing before with
    | nil =>
        have hnone : (ofRegex r).Runs entry ⟨before, []⟩ ((Point.read ⟨before, []⟩ s).bind some) :=
          .read hentry nofun
        exact ⟨_, .split hsplit (runs_build hread _) hnone⟩
    | cons c rest ih =>
        obtain ⟨later, hlater⟩ := ih (some c)
        have hlater : (ofRegex r).Runs entry ⟨before, c :: rest⟩
            ((Point.read ⟨before, c :: rest⟩ s).bind fun _ =>
              (r.prefer some ⟨some c, rest⟩).or later) := by
          refine .read hentry fun q hq => ?_
          obtain ⟨d, _, hrest, hbefore⟩ := Point.read_eq_some_iff.1 hq
          obtain ⟨b, t⟩ := q
          cases hrest
          cases hbefore
          exact hlater
        exact ⟨_, .split hsplit (runs_build hread _) hlater⟩

end Peg.Automaton
