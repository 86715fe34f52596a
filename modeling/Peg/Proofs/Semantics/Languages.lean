import Peg.Proofs.Grammar.Implements
import Peg.Proofs.Semantics.Derives

/-!
# Languages of expressions

Read without priorities, an expression has a language once the names in it have theirs: a sequence
takes texts one after the other, a choice what any of its options takes. If the language of each name
contains that of its definition, everything that the rules match is in the languages of their
expressions, whatever the order of options, the greed of repetitions and lookahead make of them. Main
statements: `Library.Derives.generated`, and `Library.Derives.takesUp_of_single` for a grammar of its
own.
-/

namespace Peg

namespace Expr

mutual

/-- What an expression may take up at most if the names have the languages of `L`. -/
def Generates (L : String → List Char → Prop) : Expr → List Char → Prop
  | text literal ignoreCase, u =>
    literalAt (if ignoreCase then sameLower else (· == ·)) literal.toList u = some (byteLength u)
  | pattern source, u => ∃ p rest, Pattern.anchored? source = some p ∧
      p.automaton.findEnd (u ++ rest) = some (byteLength u)
  | range first last, u => ∃ c, u = [c] ∧ first ≤ c ∧ c ≤ last
  | any, u => ∃ c, u = [c]
  | endOfInput, u => u = []
  | seq parts, u => GeneratesAll L parts u
  | choice options, u => GeneratesOne L options u
  | rep body least most, u => ∃ us : List (List Char), u = us.flatten ∧
      (∀ v ∈ us, body.Generates L v) ∧ (∀ bound ∈ most, us.length ≤ bound) ∧
      (least ≤ us.length ∨ us.getLast? = some [])
  | ahead _, u => u = []
  | notAhead _, u => u = []
  | upTo _, u => u ≠ []
  | ref name, u => L name u
  | inherited _, _ => True
  | label body _, u => body.Generates L u
  | extended body _, u => body.Generates L u

def GeneratesAll (L : String → List Char → Prop) : List Expr → List Char → Prop
  | [], u => u = []
  | e :: es, u => ∃ v w, u = v ++ w ∧ e.Generates L v ∧ GeneratesAll L es w

def GeneratesOne (L : String → List Char → Prop) : List Expr → List Char → Prop
  | [], _ => False
  | e :: es, u => e.Generates L u ∨ GeneratesOne L es u

end

end Expr

theorem exists_of_literalAt {alike : Char → Char → Bool} {literal text : List Char} {n : Nat}
    (h : literalAt alike literal text = some n) :
    ∃ u rest, text = u ++ rest ∧ n = byteLength u ∧
      literalAt alike literal u = some (byteLength u) := by
  induction literal generalizing text n with
  | nil =>
      cases h
      exact ⟨[], text, rfl, rfl, rfl⟩
  | cons e es ih =>
      cases text with
      | nil => cases h
      | cons c cs =>
          simp only [literalAt] at h
          split at h
          · next hc =>
              obtain ⟨m, hm, rfl⟩ := Option.map_eq_some_iff.1 h
              obtain ⟨u, rest, rfl, rfl, hu⟩ := ih hm
              exact ⟨c :: u, rest, rfl, rfl, by simp [literalAt, hc, hu]⟩
          · cases h

theorem literalAt_eq_iff {literal u : List Char} :
    literalAt (· == ·) literal u = some (byteLength u) ↔ u = literal := by
  constructor
  · intro h
    induction literal generalizing u with
    | nil =>
        cases u with
        | nil => rfl
        | cons c cs =>
            have hc := c.utf8Size_pos
            simp only [literalAt, byteLength_cons, Option.some.injEq] at h
            omega
    | cons e es ih =>
        cases u with
        | nil => cases h
        | cons c cs =>
            simp only [literalAt] at h
            split at h
            · next hc =>
                obtain ⟨m, hm, hlength⟩ := Option.map_eq_some_iff.1 h
                rw [byteLength_cons, Nat.add_left_cancel_iff] at hlength
                rw [hlength] at hm
                rw [ih hm, eq_of_beq hc]
            · cases h
  · rintro rfl
    induction u with
    | nil => rfl
    | cons c cs ih => simp [literalAt, ih]

namespace Matcher

variable {first last : Char} {text : List Char} {n : Nat}

theorem exists_of_range (h : (range first last).matchAt text = some n) :
    ∃ c rest, text = c :: rest ∧ n = byteLength [c] ∧ first ≤ c ∧ c ≤ last := by
  cases text with
  | nil => cases h
  | cons c rest =>
      rw [matchAt] at h
      split at h
      · next hc =>
          cases h
          simp only [Bool.and_eq_true, decide_eq_true_eq] at hc
          exact ⟨c, rest, rfl, rfl, hc⟩
      · cases h

theorem exists_of_any (h : any.matchAt text = some n) :
    ∃ c rest, text = c :: rest ∧ n = byteLength [c] := by
  cases text with
  | nil => cases h
  | cons c rest =>
      cases h
      exact ⟨c, rest, rfl, rfl⟩

theorem eq_nil_of_endOfInput (h : endOfInput.matchAt text = some n) : text = [] ∧ n = 0 := by
  cases text with
  | nil =>
      cases h
      exact ⟨rfl, rfl⟩
  | cons c rest => cases h

end Matcher

namespace Library

variable {lib : Library} {g : Nat} {owner : String} {L : String → List Char → Prop}
  {D : Derivability}

/-- The derivation takes up a text that the language has. -/
def TakesUp (language : List Char → Prop) (p : Place) (d : Derivation) : Prop :=
  ∃ u rest, p.rest = u ++ rest ∧ d.length = byteLength u ∧ language u

/-- Derivations take up texts that the expressions of their rules generate. -/
def Generated (lib : Library) (g : Nat) (L : String → List Char → Prop) : Derivability :=
  fun r p d => ∀ (i : Nat) (owner : String) (e : Expr) (name : Option String) (x : Option Extension),
    r = ⟨g, i⟩ → lib.Implements g owner i e name x → TakesUp (e.Generates L) p d

theorem row_generatesAll {ids : List Nat} {es : List Expr} {p : Place} {ds : List Derivation}
    (hD : ∀ {r p d}, D r p d → lib.Generated g L r p d) (h : D.Row (ids.map (RuleRef.mk g)) p ds)
    (hes : lib.ImplementsAll g owner ids es) :
    ∃ u rest, p.rest = u ++ rest ∧ Derivation.totalLength ds = byteLength u ∧
      Expr.GeneratesAll L es u := by
  induction ids generalizing es p ds with
  | nil =>
      cases h
      cases hes
      exact ⟨[], p.rest, rfl, rfl, rfl⟩
  | cons i ids ih =>
      cases h with
      | cons hd hds =>
          cases hes with
          | cons he hes =>
              obtain ⟨u, rest, hrest, hlength, hu⟩ := hD hd i owner _ _ _ rfl he
              obtain ⟨v, rest', hrest', hlength', hv⟩ := ih hds hes
              simp only [Place.advance, hrest, hlength, dropBytes_byteLength_append] at hrest'
              refine ⟨u ++ v, rest', ?_, ?_, u, v, rfl, hu, hv⟩
              · rw [hrest, hrest', List.append_assoc]
              · rw [Derivation.totalLength, byteLength_append, hlength, hlength']

theorem row_generates_rounds {i : Nat} {e : Expr} {p : Place} {ds : List Derivation}
    (hD : ∀ {r p d}, D r p d → lib.Generated g L r p d)
    (h : D.Row (List.replicate ds.length ⟨g, i⟩) p ds)
    (he : lib.Implements g owner i e none e.attached) :
    ∃ (us : List (List Char)) (rest : List Char), p.rest = us.flatten ++ rest ∧
      us.map byteLength = ds.map Derivation.length ∧ ∀ u ∈ us, e.Generates L u := by
  induction ds generalizing p with
  | nil => exact ⟨[], p.rest, rfl, rfl, List.forall_mem_nil _⟩
  | cons d ds ih =>
      rw [List.length_cons, List.replicate_succ] at h
      cases h with
      | cons hd hds =>
          obtain ⟨u, rest, hrest, hlength, hu⟩ := hD hd i owner _ _ _ rfl he
          obtain ⟨us, rest', hrest', hlengths, hus⟩ := ih hds
          simp only [Place.advance, hrest, hlength, dropBytes_byteLength_append] at hrest'
          refine ⟨u :: us, rest', ?_, ?_, List.forall_mem_cons.2 ⟨hu, hus⟩⟩
          · rw [hrest, hrest', List.flatten_cons, List.append_assoc]
          · rw [List.map_cons, List.map_cons, hlength, hlengths]

theorem generatesOne_of_mem {ids : List Nat} {es : List Expr} {i : Nat} {p : Place} {d : Derivation}
    (hi : i ∈ ids) (h : lib.Generated g L ⟨g, i⟩ p d) (hes : lib.ImplementsAll g owner ids es) :
    TakesUp (Expr.GeneratesOne L es) p d := by
  induction ids generalizing es with
  | nil => cases hi
  | cons j ids ih =>
      cases hes with
      | cons he hes =>
          rcases List.mem_cons.1 hi with rfl | hi
          · obtain ⟨u, rest, hrest, hlength, hu⟩ := h i owner _ _ _ rfl he
            exact ⟨u, rest, hrest, hlength, .inl hu⟩
          · obtain ⟨u, rest, hrest, hlength, hu⟩ := ih hi hes
            exact ⟨u, rest, hrest, hlength, .inr hu⟩

theorem totalLength_eq_of_map {us : List (List Char)} {ds : List Derivation}
    (h : us.map byteLength = ds.map Derivation.length) :
    Derivation.totalLength ds = byteLength us.flatten := by
  induction us generalizing ds with
  | nil =>
      rw [List.map_eq_nil_iff.1 h.symm]
      rfl
  | cons u us ih =>
      cases ds with
      | nil => cases h
      | cons d ds =>
          obtain ⟨hd, hds⟩ := List.cons.inj h
          rw [Derivation.totalLength, List.flatten_cons, byteLength_append, ih hds, hd]

theorem eq_nil_of_byteLength {u : List Char} (h : byteLength u = 0) : u = [] := by
  cases u with
  | nil => rfl
  | cons c cs =>
      have hc := c.utf8Size_pos
      rw [byteLength_cons] at h
      omega

theorem takesUp_rep {i least : Nat} {most : Option Nat} {e : Expr} {r : RuleRef} {p : Place}
    {ds : List Derivation} (hD : ∀ {r p d}, D r p d → lib.Generated g L r p d)
    (h : D.Row (List.replicate ds.length ⟨g, i⟩) p ds)
    (he : lib.Implements g owner i e none e.attached) (hmost : ∀ bound ∈ most, ds.length ≤ bound)
    (hleast : least ≤ ds.length ∨ ∃ d ∈ ds.getLast?, d.length = 0) :
    TakesUp ((Expr.rep e least most).Generates L) p
      (.branch r (Derivation.totalLength ds) ds) := by
  obtain ⟨us, rest, hrest, hlengths, hus⟩ := row_generates_rounds hD h he
  have hcount : us.length = ds.length := by
    simpa using congrArg List.length hlengths
  refine ⟨us.flatten, rest, hrest, totalLength_eq_of_map hlengths, us, rfl, hus, ?_, ?_⟩
  · rwa [hcount]
  · rw [hcount]
    refine hleast.imp_right ?_
    rintro ⟨last, hlast, hzero⟩
    have hmap := congrArg List.getLast? hlengths
    rw [List.getLast?_map, List.getLast?_map, hlast, Option.map_some, hzero] at hmap
    obtain ⟨u, hu, hu0⟩ := Option.map_eq_some_iff.1 hmap
    rw [hu, eq_nil_of_byteLength hu0]

section Named

variable (hL : ∀ other t, lib.lookup g other = some t → ∃ id e name x, t = ⟨g, id⟩ ∧
  lib.Implements g other id e name x ∧ ∀ u, e.Generates L u → L other u)

include hL

theorem generated_of_formed (hD : ∀ {r p d}, D r p d → lib.Generated g L r p d) {r : RuleRef}
    {rule : Rule RuleRef} {p : Place} {d : Derivation} (hr : lib.rule? r = some rule)
    (h : D.Formed rule.kind r p d) (hcovers : Splits d.length p.rest) :
    lib.Generated g L r p d := by
  rintro i owner e name x rfl himplements
  obtain ⟨front, back, hfront, hlength⟩ := hcovers
  -- an attached extension makes no rule, so the rule of an expression is that of what it is attached to
  induction e using Expr.induct with
  | extended body extension ih =>
      cases himplements with
      | extended hbody => exact ih hbody
  | node e he _ =>
      cases himplements with
      | extended => exact absurd rfl (he _ _)
      | text hrule =>
          cases hr.symm.trans hrule
          cases h with
          | text hn =>
              obtain ⟨u, rest, hrest, rfl, hu⟩ := exists_of_literalAt hn
              exact ⟨u, rest, hrest, rfl, hu⟩
      | pattern hpattern hrule =>
          cases hr.symm.trans hrule
          cases h with
          | terminal hn =>
              rw [Matcher.matchAt, hfront] at hn
              refine ⟨front, back, hfront, hlength.symm, _, back, hpattern, ?_⟩
              rw [hn, hlength]
              rfl
      | range hrule =>
          cases hr.symm.trans hrule
          cases h with
          | terminal hn =>
              obtain ⟨c, rest, hrest, hn, hc⟩ := Matcher.exists_of_range hn
              exact ⟨[c], rest, hrest, hn, c, rfl, hc⟩
      | any hrule =>
          cases hr.symm.trans hrule
          cases h with
          | terminal hn =>
              obtain ⟨c, rest, hrest, hn⟩ := Matcher.exists_of_any hn
              exact ⟨[c], rest, hrest, hn, c, rfl⟩
      | endOfInput hrule =>
          cases hr.symm.trans hrule
          cases h with
          | terminal hn =>
              obtain ⟨hrest, hn⟩ := Matcher.eq_nil_of_endOfInput hn
              exact ⟨[], [], hrest, hn, rfl⟩
      | seq hrule hparts =>
          cases hr.symm.trans hrule
          cases h with
          | sequence hrow => exact row_generatesAll hD hrow hparts
      | choice hrule hoptions =>
          cases hr.symm.trans hrule
          cases h with
          | choice hoption hd =>
              have hinner := generatesOne_of_mem hoption (hD hd) hoptions
              exact hinner
      | rep hrule hbody =>
          cases hr.symm.trans hrule
          cases h with
          | rep hrow hmost hleast => exact takesUp_rep hD hrow hbody hmost hleast
      | ahead hrule =>
          cases hr.symm.trans hrule
          cases h with
          | ahead => exact ⟨[], p.rest, rfl, rfl, rfl⟩
      | notAhead hrule =>
          cases hr.symm.trans hrule
          cases h with
          | notAhead => exact ⟨[], p.rest, rfl, rfl, rfl⟩
      | upTo hrule =>
          cases hr.symm.trans hrule
          cases h with
          | upTo hpos _ =>
              refine ⟨front, back, hfront, hlength.symm, ?_⟩
              rintro rfl
              rw [byteLength_nil] at hlength
              exact Nat.lt_irrefl _ (hlength ▸ hpos)
      | ref hlookup hrule =>
          cases hr.symm.trans hrule
          cases h with
          | ref hd =>
              obtain ⟨id, e', name', x', rfl, he', hall⟩ := hL _ _ hlookup
              obtain ⟨u, rest, hrest, hlength, hu⟩ := hD hd id _ _ _ _ rfl he'
              exact ⟨u, rest, hrest, hlength, hall u hu⟩
      | inherited _ hrule =>
          cases hr.symm.trans hrule
          exact ⟨front, back, hfront, hlength.symm, trivial⟩
      | label hrule hbody =>
          cases hr.symm.trans hrule
          cases h with
          | label hd =>
              have hinner := hD hd _ owner _ _ _ rfl hbody
              exact hinner

/-- What the rules match is in the languages of their expressions if the language of every name
contains that of its definition. -/
theorem Derives.generated {r : RuleRef} {p : Place} {d : Derivation} (h : lib.Derives r p d) :
    lib.Generated g L r p d := by
  have hboth : lib.Generated g L r p d ∧ Splits d.length p.rest := by
    refine h.induct (motive := fun r p d => lib.Generated g L r p d ∧ Splits d.length p.rest) ?_
    intro r rule p d hr hformed
    have hcovers := hformed.covers fun _ _ _ hd => hd.2.2
    exact ⟨generated_of_formed hL (fun hd => hd.2.1) hr hformed hcovers, hcovers⟩
  exact hboth.1

end Named

/-- What the rules of a grammar of its own derive is in the languages of their names, if these languages
contain those of the definitions. -/
theorem Derives.takesUp_of_single {draft : Draft} (hincludes : draft.includes = [])
    (hadd : Library.add {} draft = .ok lib)
    (hL : ∀ definition ∈ draft.definitions, ∀ u, definition.2.Generates L u → L definition.1 u)
    {name : String} {r : RuleRef} {p : Place} {d : Derivation}
    (hr : lib.lookup 0 name = some r) (h : lib.Derives r p d) : TakesUp (L name) p d := by
  have hnamed (other : String) (t : RuleRef) (ht : lib.lookup 0 other = some t) :
      ∃ id e name x, t = ⟨0, id⟩ ∧ lib.Implements 0 other id e name x ∧
        ∀ u, e.Generates L u → L other u := by
    obtain ⟨e, he⟩ := exists_definition_of_single hincludes hadd ht
    obtain ⟨id, hid, himplements⟩ := implements_of_single hincludes hadd he
    exact ⟨id, e, _, _, Option.some.inj (ht.symm.trans hid), himplements, hL _ he⟩
  obtain ⟨id, e, _, _, rfl, himplements, hall⟩ := hnamed name r hr
  obtain ⟨u, rest, hrest, hlength, hu⟩ := h.generated hnamed id _ _ _ _ rfl himplements
  exact ⟨u, rest, hrest, hlength, hall u hu⟩

end Library

end Peg
