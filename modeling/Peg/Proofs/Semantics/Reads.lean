import Peg.Proofs.Grammar.Implements
import Peg.Proofs.Match.Members
import Peg.Proofs.Semantics.Basic

/-!
# Reading texts by expressions

An expression reads a text before another one if the rules that implement it match just that text
wherever the two stand, and it refuses a text if they do not match at its beginning. Along with the
text goes what is to be said of the match. There is a law for each kind of expression, by which what a
definition reads follows from what the definitions read that it refers to. References are the places
where such arguments are tied together, as in `Library.readsNamed_of_reads`.
-/

namespace Peg

theorem literalAt_append (literal rest : List Char) :
    literalAt (· == ·) literal (literal ++ rest) = some (byteLength literal) := by
  induction literal with
  | nil => rfl
  | cons c cs ih => simp [literalAt, ih]

theorem literalAt_cons_eq_none {c d : Char} (h : c ≠ d) (cs ds : List Char) :
    literalAt (· == ·) (c :: cs) (d :: ds) = none := by
  simp [literalAt, h]

namespace Library

/-! ## Rules -/

/-- The rule matches the text `u` wherever it stands before `rest`, and what is read off the match is
as `P` says. -/
def Finds (lib : Library) (r : RuleRef) (u rest : List Char) (P : Match → Prop) : Prop :=
  ∀ offset, ∃ d e, lib.Yields r ⟨offset, u ++ rest⟩ (some d) e ∧ d.length = byteLength u ∧
    (∀ f ∈ lib.valueMember? d.chain, f.IsLocal) ∧
    ∀ source, P (.ofDerivation lib source ⟨offset, u ++ rest⟩ d)

/-- The rule does not match at the beginning of the text. -/
def Misses (lib : Library) (r : RuleRef) (text : List Char) : Prop :=
  ∀ offset, ∃ e, lib.Yields r ⟨offset, text⟩ none e

/-- Derivations in a row that take up the text `u` and are read as `P` says. -/
def Spans (lib : Library) (ds : List Derivation) (p : Place) (u : List Char)
    (P : List Match → Prop) : Prop :=
  Derivation.totalLength ds = byteLength u ∧ ∀ source, P (Match.ofDerivations lib source p ds)

variable {lib : Library} {g i : Nat} {owner : String} {name : Option String} {f? : Option Member}
  {e : Expr} {es : List Expr} {u v rest text : List Char} {P : Match → Prop} {Q : List Match → Prop}

theorem Finds.mono {r : RuleRef} {P' : Match → Prop} (h : lib.Finds r u rest P)
    (hP : ∀ m, P m → P' m) : lib.Finds r u rest P' := by
  intro offset
  obtain ⟨d, extent, hyields, hlength, hlocal, hd⟩ := h offset
  exact ⟨d, extent, hyields, hlength, hlocal, fun source => hP _ (hd source)⟩

theorem advance_append {offset : Nat} {d : Derivation} (h : d.length = byteLength u) :
    (Place.mk offset (u ++ rest)).advance d.length = ⟨offset + byteLength u, rest⟩ := by
  rw [Place.advance, h, dropBytes_byteLength_append]

theorem spans_nil {p : Place} (hQ : Q []) : lib.Spans [] p [] Q :=
  ⟨rfl, fun _ => by simpa only [Match.ofDerivations] using hQ⟩

theorem Spans.cons {offset : Nat} {d : Derivation} {ds : List Derivation}
    (hlength : d.length = byteLength u)
    (hd : ∀ source, P (.ofDerivation lib source ⟨offset, u ++ (v ++ rest)⟩ d))
    (h : lib.Spans ds ⟨offset + byteLength u, v ++ rest⟩ v Q) :
    lib.Spans (d :: ds) ⟨offset, (u ++ v) ++ rest⟩ (u ++ v)
      fun ms => ∃ m tail, ms = m :: tail ∧ P m ∧ Q tail := by
  rw [List.append_assoc]
  constructor
  · rw [Derivation.totalLength, byteLength_append, hlength, h.1]
  · intro source
    rw [Match.ofDerivations_cons, advance_append hlength]
    exact ⟨_, _, rfl, hd source, h.2 source⟩

/-! ## Expressions -/

/-- The expression, with a name and a `value` member, reads the text `u` before `rest`. -/
def Reads (lib : Library) (g : Nat) (owner : String) (e : Expr) (name : Option String)
    (f? : Option Member) (u rest : List Char) (P : Match → Prop) : Prop :=
  ∀ i, lib.Implements g owner i e name (Extension.ofValue? f?) → lib.Finds ⟨g, i⟩ u rest P

/-- The expressions read the text one after the other. -/
def ReadsAll (lib : Library) (g : Nat) (owner : String) (es : List Expr) (u rest : List Char)
    (Q : List Match → Prop) : Prop :=
  ∀ ids, lib.ImplementsAll g owner ids es → ∀ offset, ∃ ds extent,
    Judgement.All lib.Yields (ids.map (RuleRef.mk g)) ⟨offset, u ++ rest⟩ (some ds) extent ∧
      lib.Spans ds ⟨offset, u ++ rest⟩ u Q

/-- The first of the expressions that matches reads the text. -/
def ReadsFirst (lib : Library) (g : Nat) (owner : String) (es : List Expr) (u rest : List Char)
    (P : Match → Prop) : Prop :=
  ∀ ids, lib.ImplementsAll g owner ids es → ∀ offset, ∃ d extent,
    Judgement.First lib.Yields (ids.map (RuleRef.mk g)) ⟨offset, u ++ rest⟩ (some d) extent ∧
      d.length = byteLength u ∧ (∀ f ∈ lib.valueMember? d.chain, f.IsLocal) ∧
      ∀ source, P (.ofDerivation lib source ⟨offset, u ++ rest⟩ d)

/-- Further rounds of the expression after `count` of them read the text. -/
def ReadsRounds (lib : Library) (g : Nat) (owner : String) (e : Expr) (least : Nat)
    (most : Option Nat) (count : Nat) (u rest : List Char) (Q : List Match → Prop) : Prop :=
  ∀ i, lib.Implements g owner i e none e.attached → ∀ offset, ∃ ds extent,
    Judgement.Repeated lib.Yields count ⟨g, i⟩ least most ⟨offset, u ++ rest⟩ (some ds) extent ∧
      lib.Spans ds ⟨offset, u ++ rest⟩ u Q

/-- The rule that the name stands for reads the text. -/
def ReadsNamed (lib : Library) (g : Nat) (other : String) (u rest : List Char) (P : Match → Prop) :
    Prop :=
  ∀ r, lib.lookup g other = some r → lib.Finds r u rest P

/-- The expression does not match at the beginning of the text. -/
def Refuses (lib : Library) (g : Nat) (owner : String) (e : Expr) (text : List Char) : Prop :=
  ∀ i name x, lib.Implements g owner i e name x → lib.Misses ⟨g, i⟩ text

/-- The expressions do not match one after the other at the beginning of the text. -/
def RefusesAll (lib : Library) (g : Nat) (owner : String) (es : List Expr) (text : List Char) :
    Prop :=
  ∀ ids, lib.ImplementsAll g owner ids es → ∀ offset, ∃ extent,
    Judgement.All lib.Yields (ids.map (RuleRef.mk g)) ⟨offset, text⟩ none extent

/-- None of the expressions matches at the beginning of the text. -/
def RefusesEach (lib : Library) (g : Nat) (owner : String) (es : List Expr) (text : List Char) :
    Prop :=
  ∀ ids, lib.ImplementsAll g owner ids es → ∀ offset, ∃ extent,
    Judgement.First lib.Yields (ids.map (RuleRef.mk g)) ⟨offset, text⟩ none extent

/-- The rule that the name stands for does not match at the beginning of the text. -/
def RefusesNamed (lib : Library) (g : Nat) (other : String) (text : List Char) : Prop :=
  ∀ r, lib.lookup g other = some r → lib.Misses r text

/-! ## What is read -/

theorem finds_step {kind : Kind RuleRef}
    (hr : lib.rule? ⟨g, i⟩ = some { kind, name, extension := Extension.ofValue? f? })
    (hlocal : ∀ f ∈ f?, f.IsLocal)
    (hkind : ∀ p : Place, p.rest = u ++ rest → Judgement.Performed lib.Yields kind ⟨g, i⟩ p
      (some (.branch ⟨g, i⟩ (byteLength u) [])) .zero)
    (hP : ∀ m, m.Bears name.toList f? u [] → P m) : lib.Finds ⟨g, i⟩ u rest P := by
  intro offset
  refine ⟨_, _, .intro hr (hkind _ rfl), rfl, ?_, fun source => hP _ ?_⟩
  · rwa [Match.valueMember?_branch hr rfl]
  · have hbears : (Match.ofDerivation lib source ⟨offset, u ++ rest⟩
        (.branch ⟨g, i⟩ (byteLength u) [])).Bears _ f? _ _ := Match.bears_branch hr rfl hlocal
    simpa only [Rule.names, Option.toList_none, List.append_nil, takeBytes_byteLength_append,
      Match.ofDerivations] using hbears

theorem reads_text {literal : String} (hlocal : ∀ f ∈ f?, f.IsLocal)
    (hP : ∀ m, m.Bears name.toList f? literal.toList [] → P m) :
    lib.Reads g owner (.text literal false) name f? literal.toList rest P := by
  intro i himplements
  cases himplements with
  | text hr =>
      apply finds_step hr hlocal _ hP
      intro p hp
      have hperformed : Judgement.Performed lib.Yields (.text literal.toList false) ⟨g, i⟩ p _ .zero :=
        .text
      rw [hp, if_neg Bool.false_ne_true, literalAt_append] at hperformed
      exact hperformed

theorem reads_pattern {source : String} (hlocal : ∀ f ∈ f?, f.IsLocal)
    (hend : ∀ p, Pattern.anchored? source = some p →
      p.automaton.findEnd (u ++ rest) = some (byteLength u))
    (hP : ∀ m, m.Bears name.toList f? u [] → P m) :
    lib.Reads g owner (.pattern source) name f? u rest P := by
  intro i himplements
  cases himplements with
  | @pattern _ _ pattern _ _ hpattern hr =>
      apply finds_step hr hlocal _ hP
      intro p hp
      have hperformed : Judgement.Performed lib.Yields (.terminal (.pattern pattern)) ⟨g, i⟩ p _
        .zero := .terminal
      rw [hp, Matcher.matchAt, hend pattern hpattern] at hperformed
      exact hperformed

theorem finds_parts {kind : Kind RuleRef}
    (hr : lib.rule? ⟨g, i⟩ = some { kind, name, extension := Extension.ofValue? f? })
    (hlocal : ∀ f ∈ f?, f.IsLocal)
    (hkind : ∀ offset, ∃ ds extent, Judgement.Performed lib.Yields kind ⟨g, i⟩ ⟨offset, u ++ rest⟩
      (some (.branch ⟨g, i⟩ (Derivation.totalLength ds) ds)) extent ∧
        lib.Spans ds ⟨offset, u ++ rest⟩ u Q)
    (hP : ∀ m ms, m.Bears name.toList f? u ms → Q ms → P m) : lib.Finds ⟨g, i⟩ u rest P := by
  intro offset
  obtain ⟨ds, extent, hperformed, hlength, hQ⟩ := hkind offset
  refine ⟨_, _, .intro hr hperformed, hlength, ?_, fun source => hP _ _ ?_ (hQ source)⟩
  · rwa [Match.valueMember?_branch hr rfl]
  · have hbears : (Match.ofDerivation lib source ⟨offset, u ++ rest⟩
        (.branch ⟨g, i⟩ (Derivation.totalLength ds) ds)).Bears _ f? _ _ :=
      Match.bears_branch hr rfl hlocal
    simpa only [Rule.names, Option.toList_none, List.append_nil, hlength,
      takeBytes_byteLength_append] using hbears

theorem reads_seq (hlocal : ∀ f ∈ f?, f.IsLocal) (hes : lib.ReadsAll g owner es u rest Q)
    (hP : ∀ m ms, m.Bears name.toList f? u ms → Q ms → P m) :
    lib.Reads g owner (.seq es) name f? u rest P := by
  intro i himplements
  cases himplements with
  | seq hr hparts =>
      apply finds_parts hr hlocal _ hP
      intro offset
      obtain ⟨ds, extent, hall, hspans⟩ := hes _ hparts offset
      exact ⟨ds, extent, Judgement.Performed.sequence (r := ⟨g, i⟩) hall, hspans⟩

theorem reads_rep {least : Nat} {most : Option Nat} (hlocal : ∀ f ∈ f?, f.IsLocal)
    (he : lib.ReadsRounds g owner e least most 0 u rest Q)
    (hP : ∀ m ms, m.Bears name.toList f? u ms → Q ms → P m) :
    lib.Reads g owner (.rep e least most) name f? u rest P := by
  intro i himplements
  cases himplements with
  | rep hr hbody =>
      apply finds_parts hr hlocal _ hP
      intro offset
      obtain ⟨ds, extent, hrounds, hspans⟩ := he _ hbody offset
      exact ⟨ds, extent, Judgement.Performed.rep (r := ⟨g, i⟩) hrounds, hspans⟩

theorem finds_wrapped {kind : Kind RuleRef} {label : Option String} {inner : Match → Prop}
    (hr : lib.rule? ⟨g, i⟩ = some { kind, name, label, extension := Extension.ofValue? f? })
    (hlocal : ∀ f ∈ f?, f.IsLocal)
    (hkind : ∀ offset, ∃ d extent, Judgement.Performed lib.Yields kind ⟨g, i⟩ ⟨offset, u ++ rest⟩
      (some (.wrapped ⟨g, i⟩ d)) extent ∧ d.length = byteLength u ∧
        (∀ f ∈ lib.valueMember? d.chain, f.IsLocal) ∧
        ∀ source, inner (.ofDerivation lib source ⟨offset, u ++ rest⟩ d))
    (hP : ∀ m m', m.Wraps m' (name.toList ++ label.toList) f? → inner m' → P m) :
    lib.Finds ⟨g, i⟩ u rest P := by
  intro offset
  obtain ⟨d, extent, hperformed, hlength, hd, hinner⟩ := hkind offset
  refine ⟨_, _, .intro hr hperformed, hlength, Match.isLocal_wrapped hr rfl hlocal hd, ?_⟩
  intro source
  exact hP _ _ (Match.wraps_wrapped hr rfl hlocal hd) (hinner source)

theorem reads_choice {inner : Match → Prop} (hlocal : ∀ f ∈ f?, f.IsLocal)
    (hes : lib.ReadsFirst g owner es u rest inner)
    (hP : ∀ m m', m.Wraps m' name.toList f? → inner m' → P m) :
    lib.Reads g owner (.choice es) name f? u rest P := by
  intro i himplements
  cases himplements with
  | choice hr hoptions =>
      apply finds_wrapped hr hlocal _ (by simpa using hP)
      intro offset
      obtain ⟨d, extent, hfirst, hd⟩ := hes _ hoptions offset
      exact ⟨d, extent, Judgement.Performed.choice (r := ⟨g, i⟩) hfirst, hd⟩

theorem reads_ref {other : String} {inner : Match → Prop} (hlocal : ∀ f ∈ f?, f.IsLocal)
    (hother : lib.ReadsNamed g other u rest inner)
    (hP : ∀ m m', m.Wraps m' name.toList f? → inner m' → P m) :
    lib.Reads g owner (.ref other) name f? u rest P := by
  intro i himplements
  cases himplements with
  | ref hlookup hr =>
      apply finds_wrapped hr hlocal _ (by simpa using hP)
      intro offset
      obtain ⟨d, extent, hyields, hd⟩ := hother _ hlookup offset
      exact ⟨d, _, Judgement.Performed.ref (r := ⟨g, i⟩) hyields, hd⟩

theorem reads_label {label : String} {inner : Match → Prop} {f?' : Option Member}
    (hlocal : ∀ f ∈ f?, f.IsLocal) (hx : e.attached = Extension.ofValue? f?')
    (he : lib.Reads g owner e none f?' u rest inner)
    (hP : ∀ m m', m.Wraps m' (name.toList ++ [label]) f? → inner m' → P m) :
    lib.Reads g owner (.label e label) name f? u rest P := by
  intro i himplements
  cases himplements with
  | label hr hbody =>
      rw [hx] at hbody
      apply finds_wrapped hr hlocal _ hP
      intro offset
      obtain ⟨d, extent, hyields, hd⟩ := he _ hbody offset
      exact ⟨d, _, Judgement.Performed.label (r := ⟨g, i⟩) hyields, hd⟩

theorem reads_extended {x : Extension} (h : lib.Reads g owner e name f? u rest P) :
    lib.Reads g owner (.extended e x) name f? u rest P := by
  intro i himplements
  cases himplements with
  | extended hbody => exact h i hbody

/-! ### Several expressions -/

theorem readsAll_nil (hQ : Q []) : lib.ReadsAll g owner [] [] rest Q := by
  intro ids himplements offset
  cases himplements
  exact ⟨[], _, .nil, spans_nil hQ⟩

theorem readsAll_cons (hx : e.attached = Extension.ofValue? f?)
    (he : lib.Reads g owner e none f? u (v ++ rest) P) (hes : lib.ReadsAll g owner es v rest Q) :
    lib.ReadsAll g owner (e :: es) (u ++ v) rest fun ms => ∃ m tail, ms = m :: tail ∧ P m ∧ Q tail := by
  intro ids himplements offset
  cases himplements with
  | cons hfirst hrest =>
      rw [hx] at hfirst
      obtain ⟨d, _, hyields, hlength, -, hd⟩ := he _ hfirst offset
      obtain ⟨ds, _, hall, hspans⟩ := hes _ hrest (offset + byteLength u)
      have hspans' := Spans.cons hlength hd hspans
      rw [← advance_append hlength] at hall
      have hcons := Judgement.All.cons hyields hall
      rw [← List.append_assoc] at hcons
      exact ⟨d :: ds, _, hcons, hspans'⟩

theorem readsAll_last (hx : e.attached = Extension.ofValue? f?)
    (he : lib.Reads g owner e none f? u rest P) :
    lib.ReadsAll g owner [e] u rest fun ms => ∃ m, ms = [m] ∧ P m := by
  have hlast := readsAll_cons hx he (readsAll_nil (Q := (· = [])) rfl)
  rw [List.append_nil] at hlast
  intro ids himplements offset
  obtain ⟨ds, extent, hall, hlength, hQ⟩ := hlast ids himplements offset
  refine ⟨ds, extent, hall, hlength, fun source => ?_⟩
  obtain ⟨m, _, hms, hm, rfl⟩ := hQ source
  exact ⟨m, hms, hm⟩

theorem readsFirst_found (hx : e.attached = Extension.ofValue? f?)
    (he : lib.Reads g owner e none f? u rest P) : lib.ReadsFirst g owner (e :: es) u rest P := by
  intro ids himplements offset
  cases himplements with
  | cons hfirst _ =>
      rw [hx] at hfirst
      obtain ⟨d, _, hyields, hd⟩ := he _ hfirst offset
      exact ⟨d, _, .found hyields, hd⟩

theorem readsFirst_next (he : lib.Refuses g owner e (u ++ rest))
    (hes : lib.ReadsFirst g owner es u rest P) : lib.ReadsFirst g owner (e :: es) u rest P := by
  intro ids himplements offset
  cases himplements with
  | cons hfirst hrest =>
      obtain ⟨_, hyields⟩ := he _ _ _ hfirst offset
      obtain ⟨d, _, hnext, hd⟩ := hes _ hrest offset
      exact ⟨d, _, .next hyields hnext, hd⟩

section Rounds

variable {least count : Nat} {most : Option Nat}

theorem readsRounds_full (hmost : most = some count) (hleast : least ≤ count) (hQ : Q []) :
    lib.ReadsRounds g owner e least most count [] rest Q := by
  intro i _ offset
  have hfull : Judgement.Repeated lib.Yields count ⟨g, i⟩ least most ⟨offset, [] ++ rest⟩ _ .zero :=
    .full hmost
  rw [if_pos hleast] at hfull
  exact ⟨[], _, hfull, spans_nil hQ⟩

theorem readsRounds_stop (hmost : most ≠ some count) (hleast : least ≤ count)
    (he : lib.Refuses g owner e rest) (hQ : Q []) :
    lib.ReadsRounds g owner e least most count [] rest Q := by
  intro i himplements offset
  obtain ⟨extent, hyields⟩ := he _ _ _ himplements offset
  have hstop : Judgement.Repeated lib.Yields count ⟨g, i⟩ least most ⟨offset, [] ++ rest⟩ _ extent :=
    .stop hmost hyields
  rw [if_pos hleast] at hstop
  exact ⟨[], _, hstop, spans_nil hQ⟩

theorem readsRounds_more {Q' : List Match → Prop} (hmost : most ≠ some count)
    (hx : e.attached = Extension.ofValue? f?) (hu : u ≠ [])
    (he : lib.Reads g owner e none f? u (v ++ rest) P)
    (hrounds : lib.ReadsRounds g owner e least most (count + 1) v rest Q)
    (hQ : ∀ m ms, P m → Q ms → Q' (m :: ms)) :
    lib.ReadsRounds g owner e least most count (u ++ v) rest Q' := by
  intro i himplements offset
  obtain ⟨ds, _, hrepeated, hspans⟩ := hrounds _ himplements (offset + byteLength u)
  rw [hx] at himplements
  obtain ⟨d, _, hyields, hlength, -, hd⟩ := he _ himplements offset
  have hspans' := Spans.cons hlength hd hspans
  have hpos : d.length ≠ 0 := by
    cases u with
    | nil => exact absurd rfl hu
    | cons c cs =>
        have hc := c.utf8Size_pos
        rw [hlength, byteLength_cons]
        omega
  rw [← advance_append hlength] at hrepeated
  have hmore := Judgement.Repeated.more hmost hyields hpos hrepeated
  rw [← List.append_assoc] at hmore
  refine ⟨d :: ds, _, hmore, hspans'.1, fun source => ?_⟩
  obtain ⟨m, ms, hread, hm, hms⟩ := hspans'.2 source
  rw [hread]
  exact hQ m ms hm hms

end Rounds

/-! ## What is refused -/

theorem refuses_text {literal : String} (h : literalAt (· == ·) literal.toList text = none) :
    lib.Refuses g owner (.text literal false) text := by
  intro i name x himplements offset
  cases himplements with
  | text hr =>
      have hperformed : Judgement.Performed lib.Yields (.text literal.toList false) ⟨g, i⟩
        ⟨offset, text⟩ _ .zero := .text
      rw [if_neg Bool.false_ne_true, h] at hperformed
      exact ⟨_, .intro hr hperformed⟩

theorem refuses_pattern {source : String}
    (h : ∀ p, Pattern.anchored? source = some p → p.automaton.findEnd text = none) :
    lib.Refuses g owner (.pattern source) text := by
  intro i name x himplements offset
  cases himplements with
  | @pattern _ _ pattern _ _ hpattern hr =>
      have hperformed : Judgement.Performed lib.Yields (.terminal (.pattern pattern)) ⟨g, i⟩
        ⟨offset, text⟩ _ .zero := .terminal
      rw [Matcher.matchAt, h pattern hpattern] at hperformed
      exact ⟨_, .intro hr hperformed⟩

theorem refuses_seq (h : lib.RefusesAll g owner es text) : lib.Refuses g owner (.seq es) text := by
  intro i name x himplements offset
  cases himplements with
  | seq hr hparts =>
      obtain ⟨_, hall⟩ := h _ hparts offset
      exact ⟨_, .intro hr (Judgement.Performed.sequence (r := ⟨g, i⟩) hall)⟩

theorem refuses_choice (h : lib.RefusesEach g owner es text) :
    lib.Refuses g owner (.choice es) text := by
  intro i name x himplements offset
  cases himplements with
  | choice hr hoptions =>
      obtain ⟨_, hfirst⟩ := h _ hoptions offset
      exact ⟨_, .intro hr (Judgement.Performed.choice (r := ⟨g, i⟩) hfirst)⟩

theorem refuses_ref {other : String} (h : lib.RefusesNamed g other text) :
    lib.Refuses g owner (.ref other) text := by
  intro i name x himplements offset
  cases himplements with
  | ref hlookup hr =>
      obtain ⟨_, hyields⟩ := h _ hlookup offset
      exact ⟨_, .intro hr (Judgement.Performed.ref (r := ⟨g, i⟩) hyields)⟩

theorem refuses_label {label : String} (h : lib.Refuses g owner e text) :
    lib.Refuses g owner (.label e label) text := by
  intro i name x himplements offset
  cases himplements with
  | label hr hbody =>
      obtain ⟨_, hyields⟩ := h _ _ _ hbody offset
      exact ⟨_, .intro hr (Judgement.Performed.label (r := ⟨g, i⟩) hyields)⟩

theorem refuses_extended {x : Extension} (h : lib.Refuses g owner e text) :
    lib.Refuses g owner (.extended e x) text := by
  intro i name x' himplements
  cases himplements with
  | extended hbody => exact h _ _ _ hbody

theorem refusesAll_head (he : lib.Refuses g owner e text) :
    lib.RefusesAll g owner (e :: es) text := by
  intro ids himplements offset
  cases himplements with
  | cons hfirst _ =>
      obtain ⟨_, hyields⟩ := he _ _ _ hfirst offset
      exact ⟨_, .fail hyields⟩

theorem refusesAll_tail (hx : e.attached = Extension.ofValue? f?)
    (he : lib.Reads g owner e none f? u rest P) (hes : lib.RefusesAll g owner es rest) :
    lib.RefusesAll g owner (e :: es) (u ++ rest) := by
  intro ids himplements offset
  cases himplements with
  | cons hfirst hrest =>
      rw [hx] at hfirst
      obtain ⟨d, _, hyields, hlength, -⟩ := he _ hfirst offset
      obtain ⟨_, hall⟩ := hes _ hrest (offset + byteLength u)
      rw [← advance_append hlength] at hall
      exact ⟨_, .cons hyields hall⟩

theorem refusesEach_nil : lib.RefusesEach g owner [] text := by
  intro ids himplements offset
  cases himplements
  exact ⟨_, .nil⟩

theorem refusesEach_cons (he : lib.Refuses g owner e text) (hes : lib.RefusesEach g owner es text) :
    lib.RefusesEach g owner (e :: es) text := by
  intro ids himplements offset
  cases himplements with
  | cons hfirst hrest =>
      obtain ⟨_, hyields⟩ := he _ _ _ hfirst offset
      obtain ⟨_, hnext⟩ := hes _ hrest offset
      exact ⟨_, .next hyields hnext⟩

/-! ## Names -/

/-- A name is defined by an expression. -/
def Defines (lib : Library) (g : Nat) (other : String) (e : Expr) : Prop :=
  ∃ id, lib.lookup g other = some ⟨g, id⟩ ∧ lib.Implements g other id e (some other) e.attached

/-- A name reads what its definition does. -/
theorem readsNamed_of_reads {other : String} (h : lib.Defines g other e)
    (hx : e.attached = Extension.ofValue? f?)
    (he : lib.Reads g other e (some other) f? u rest P) : lib.ReadsNamed g other u rest P := by
  intro r hr
  obtain ⟨id, hlookup, himplements⟩ := h
  rw [hx] at himplements
  cases hlookup.symm.trans hr
  exact he id himplements

theorem readsNamed_both {other : String} {r : RuleRef} {P' : Match → Prop}
    (hr : lib.lookup g other = some r) (h : lib.ReadsNamed g other u rest P)
    (h' : lib.ReadsNamed g other u rest P') : ∃ m, P m ∧ P' m := by
  obtain ⟨d, _, hyields, -, -, hd⟩ := h r hr 0
  obtain ⟨d', _, hyields', -, -, hd'⟩ := h' r hr 0
  obtain ⟨hsame, -⟩ := Yields.unique hyields hyields'
  cases hsame
  exact ⟨_, hd [], hd' []⟩

theorem refusesNamed_of_refuses {other : String} (h : lib.Defines g other e)
    (he : lib.Refuses g other e text) : lib.RefusesNamed g other text := by
  intro r hr
  obtain ⟨id, hlookup, himplements⟩ := h
  cases hlookup.symm.trans hr
  exact he id _ _ himplements

end Library

end Peg
