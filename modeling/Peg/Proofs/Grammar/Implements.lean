import Peg.Proofs.Grammar.Address
import Peg.Proofs.Grammar.Readback
import Peg.Proofs.Grammar.Target

/-!
# Rules that implement expressions

A rule of a library implements an expression if its kind is that of the expression and the rules it is
made of implement the parts. What a grammar was built from can so be told from the library alone,
without the numbers that the rules got. Main statement: `Library.implements_of_build`, every name of a
draft stands for a rule that implements the definition.
-/

namespace Peg

def Expr.attached : Expr → Option Extension
  | .extended body extension => some ((body.attached.map (·.merge extension)).getD extension)
  | _ => none

namespace Library

mutual

/-- The rule of a number is what the expression becomes in the definition `owner` of the grammar `g`,
with a name and an extension. -/
inductive Implements (lib : Library) (g : Nat) (owner : String) :
    Nat → Expr → Option String → Option Extension → Prop
  | text {i literal ignoreCase name x} :
      lib.rule? ⟨g, i⟩ = some { kind := .text literal.toList ignoreCase, name, extension := x } →
      Implements lib g owner i (.text literal ignoreCase) name x
  | pattern {i source p name x} : Pattern.anchored? source = some p →
      lib.rule? ⟨g, i⟩ = some { kind := .terminal (.pattern p), name, extension := x } →
      Implements lib g owner i (.pattern source) name x
  | range {i first last name x} :
      lib.rule? ⟨g, i⟩ = some { kind := .terminal (.range first last), name, extension := x } →
      Implements lib g owner i (.range first last) name x
  | any {i name x} : lib.rule? ⟨g, i⟩ = some { kind := .terminal .any, name, extension := x } →
      Implements lib g owner i .any name x
  | endOfInput {i name x} :
      lib.rule? ⟨g, i⟩ = some { kind := .terminal .endOfInput, name, extension := x } →
      Implements lib g owner i .endOfInput name x
  | seq {i parts ids name x} : lib.rule? ⟨g, i⟩ = some { kind := .sequence ids, name, extension := x } →
      ImplementsAll lib g owner ids parts →
      Implements lib g owner i (.seq parts) name x
  | choice {i options ids name x} :
      lib.rule? ⟨g, i⟩ = some { kind := .choice ids, name, extension := x } →
      ImplementsAll lib g owner ids options →
      Implements lib g owner i (.choice options) name x
  | rep {i body least most id name x} :
      lib.rule? ⟨g, i⟩ = some { kind := .rep id least most, name, extension := x } →
      Implements lib g owner id body none body.attached →
      Implements lib g owner i (.rep body least most) name x
  | ahead {i body id name x} : lib.rule? ⟨g, i⟩ = some { kind := .ahead id, name, extension := x } →
      Implements lib g owner id body none body.attached →
      Implements lib g owner i (.ahead body) name x
  | notAhead {i body id name x} :
      lib.rule? ⟨g, i⟩ = some { kind := .notAhead id, name, extension := x } →
      Implements lib g owner id body none body.attached →
      Implements lib g owner i (.notAhead body) name x
  | upTo {i stop id name x} : lib.rule? ⟨g, i⟩ = some { kind := .upTo id, name, extension := x } →
      Implements lib g owner id stop none stop.attached →
      Implements lib g owner i (.upTo stop) name x
  | ref {i other target name x} : lib.lookup g other = some target →
      lib.rule? ⟨g, i⟩ = some { kind := .ref other target, name, extension := x } →
      Implements lib g owner i (.ref other) name x
  | inherited {i other target name x} :
      lib.refers? g (.inherited (other.getD owner) target) = some target →
      lib.rule? ⟨g, i⟩ = some { kind := .inherited (other.getD owner) target, name, extension := x } →
      Implements lib g owner i (.inherited other) name x
  | label {i body label id name x} :
      lib.rule? ⟨g, i⟩ = some { kind := .label id, name, label := some label, extension := x } →
      Implements lib g owner id body none body.attached →
      Implements lib g owner i (.label body label) name x
  | extended {i body extension name x} : Implements lib g owner i body name x →
      Implements lib g owner i (.extended body extension) name x

/-- The rules are what the expressions become inside another one, one by one. -/
inductive ImplementsAll (lib : Library) (g : Nat) (owner : String) : List Nat → List Expr → Prop
  | nil : ImplementsAll lib g owner [] []
  | cons {i is e es} : Implements lib g owner i e none e.attached → ImplementsAll lib g owner is es →
      ImplementsAll lib g owner (i :: is) (e :: es)

end

end Library

section Lower

variable {grammar owner : String}

theorem Expr.lower_top {e : Expr} {arena later : Arena} {id : Nat} {top : Rule String}
    (h : e.lower grammar owner arena = .ok (later, id)) (htop : later[id]? = some top) :
    top.name = none ∧ top.extension = e.attached := by
  induction e using Expr.induct generalizing arena later id top with
  | node e he _ =>
      obtain ⟨arena', ids, rule, hparts, hrule, hadd⟩ := (lower_node_iff he).1 h
      obtain ⟨-, hname, hextension⟩ := top?_eq_some hrule (length_of_lowerAll hparts)
      have hattached : e.attached = none := by
        cases e with
        | extended body extension => exact absurd rfl (he body extension)
        | _ => rfl
      cases hadd
      rw [Array.getElem?_push, if_pos rfl] at htop
      cases htop
      exact ⟨hname, hextension.trans hattached.symm⟩
  | extended body extension ih =>
      obtain ⟨arena', hbody, rfl⟩ := lower_extended_iff.1 h
      rw [Array.getElem?_modify, if_pos rfl] at htop
      obtain ⟨inner, hinner, rfl⟩ := Option.map_eq_some_iff.1 htop
      obtain ⟨hname, hextension⟩ := ih hbody hinner
      exact ⟨hname, by rw [attached, ← hextension]; rfl⟩

/-- The arena after resolving: where it has a rule, the library has the resolved one. -/
structure Arena.ResolvesTo (arena : Arena) (lib : Library) (g : Nat) : Prop where
  rules : ∃ ref inherited, ∀ (i : Nat) (source : Rule String), arena[i]? = some source →
    ∃ rule, lib.rule? ⟨g, i⟩ = some rule ∧ source.resolve ref inherited = .ok rule
  references : ∀ r rule, lib.rule? r = some rule → ∀ t ∈ rule.kind.referred,
    lib.refers? r.grammar rule.kind = some t

variable {lib : Library} {g : Nat} {final : Arena}

theorem Expr.implements_node (hfinal : final.ResolvesTo lib g) {e : Expr} {ids : List Nat} {i : Nat}
    {top : Rule String} {name : Option String} {x : Option Extension}
    (htop : e.top? owner ids = some top) (hids : ids.length = e.parts.length)
    (hi : final[i]? = some { top with name := name, extension := x })
    (hparts : lib.ImplementsAll g owner ids e.parts) :
    lib.Implements g owner i e name x := by
  obtain ⟨⟨ref, inherited, hrules⟩, hreferences⟩ := hfinal
  obtain ⟨rule, hrule, hresolve⟩ := hrules i _ hi
  have htarget := hreferences ⟨g, i⟩ rule hrule
  cases e with
  | text | any | endOfInput =>
      cases htop
      cases hresolve
      first | exact .text hrule | exact .any hrule | exact .endOfInput hrule
  | pattern =>
      obtain ⟨p, hp, rfl⟩ := Option.map_eq_some_iff.1 htop
      cases hresolve
      exact .pattern hp hrule
  | range =>
      simp only [top?, Option.ite_none_left_eq_some, Option.some.injEq] at htop
      rw [← htop.2] at hresolve
      cases hresolve
      exact .range hrule
  | seq =>
      simp only [top?, Option.ite_none_left_eq_some, Option.some.injEq] at htop
      rw [← htop.2] at hresolve
      cases hresolve
      exact .seq hrule hparts
  | choice =>
      simp only [top?, Option.ite_none_left_eq_some, Option.some.injEq] at htop
      rw [← htop.2] at hresolve
      cases hresolve
      exact .choice hrule hparts
  | rep =>
      obtain ⟨id, rfl⟩ := List.length_eq_one_iff.1 hids
      simp only [top?, Option.ite_none_left_eq_some, Option.some.injEq] at htop
      rw [← htop.2] at hresolve
      cases hresolve
      cases hparts with
      | cons hbody _ => exact .rep hrule hbody
  | ahead | notAhead | upTo | label =>
      obtain ⟨id, rfl⟩ := List.length_eq_one_iff.1 hids
      cases htop
      cases hresolve
      cases hparts with
      | cons hbody _ =>
          first
            | exact .ahead hrule hbody
            | exact .notAhead hrule hbody
            | exact .upTo hrule hbody
            | exact .label hrule hbody
  | ref other =>
      cases htop
      unfold Rule.resolve at hresolve
      simp only [Rule.ofKind, Kind.resolve] at hresolve
      cases hfound : ref other owner with
      | error error =>
          rw [hfound] at hresolve
          cases hresolve
      | ok target =>
          rw [hfound] at hresolve
          cases hresolve
          exact .ref (htarget target rfl) hrule
  | inherited other =>
      cases htop
      unfold Rule.resolve at hresolve
      simp only [Rule.ofKind, Kind.resolve] at hresolve
      cases hfound : inherited (other.getD owner) owner with
      | error error =>
          rw [hfound] at hresolve
          cases hresolve
      | ok target =>
          rw [hfound] at hresolve
          cases hresolve
          exact .inherited (htarget target rfl) hrule
  | extended => cases htop

theorem Expr.lowerAll_implements {es : List Expr}
    (hes : ∀ e ∈ es, ∀ {arena later : Arena} {id : Nat} {top : Rule String} {name : Option String}
      {x : Option Extension}, e.lower grammar owner arena = .ok (later, id) →
      (∀ i, arena.size ≤ i → i < id → final[i]? = later[i]?) → later[id]? = some top →
      final[id]? = some { top with name := name, extension := x } →
      lib.Implements g owner id e name x)
    {arena later : Arena} {ids : List Nat}
    (h : Expr.lowerAll grammar owner arena es = .ok (later, ids))
    (hkept : ∀ i, arena.size ≤ i → i < later.size → final[i]? = later[i]?) :
    lib.ImplementsAll g owner ids es := by
  induction es generalizing arena ids with
  | nil =>
      cases h
      exact .nil
  | cons e es ih =>
      obtain ⟨arena', id, ids', he, hrest, rfl⟩ := lowerAll_cons_iff.1 h
      obtain ⟨hfirst, hid⟩ := lower_grows he
      have hgrows := lowerAll_grows (fun _ _ => lower_grows) hrest
      have hsize := hfirst.size
      have hsize' := hgrows.size
      have hpos := e.ruleCount_pos
      have hsame (i : Nat) (hi : arena.size ≤ i) (hlt : i < arena'.size) :
          final[i]? = arena'[i]? := by
        rw [hkept i hi (by omega), hgrows.kept i hlt]
      have htop : arena'[id]? = some arena'[id] := Array.getElem?_eq_getElem (by omega)
      obtain ⟨hname, hextension⟩ := lower_top he htop
      refine .cons ?_ (ih (fun e' he' => hes e' (List.mem_cons_of_mem e he')) hrest ?_)
      · apply hes e List.mem_cons_self he _ htop
        · rw [hsame id (by omega) (by omega), htop, ← hname, ← hextension]
        · intro i hi hlt
          exact hsame i hi (by omega)
      · intro i hi hlt
        exact hkept i (by omega) hlt

/-- The rules of an expression implement it, whatever name and extension its top is given later. -/
theorem Expr.lower_implements (hfinal : final.ResolvesTo lib g) {e : Expr} {arena later : Arena}
    {id : Nat} {top : Rule String} {name : Option String} {x : Option Extension}
    (h : e.lower grammar owner arena = .ok (later, id))
    (hkept : ∀ i, arena.size ≤ i → i < id → final[i]? = later[i]?) (htop : later[id]? = some top)
    (hid : final[id]? = some { top with name := name, extension := x }) :
    lib.Implements g owner id e name x := by
  induction e using Expr.induct generalizing arena later id top name x with
  | node e he ih =>
      obtain ⟨arena', ids, rule, hparts, hrule, hadd⟩ := (lower_node_iff he).1 h
      cases hadd
      rw [Array.getElem?_push, if_pos rfl] at htop
      cases htop
      -- only the rule at the top can still be named or extended, those of the parts stay as they are
      apply implements_node hfinal hrule (length_of_lowerAll hparts) hid
      apply lowerAll_implements ih hparts
      intro i hi hlt
      rw [hkept i hi hlt, Array.getElem?_push, if_neg (by omega)]
  | extended body extension ih =>
      obtain ⟨arena', hbody, rfl⟩ := lower_extended_iff.1 h
      rw [Array.getElem?_modify, if_pos rfl] at htop
      obtain ⟨inner, hinner, rfl⟩ := Option.map_eq_some_iff.1 htop
      refine .extended (ih hbody ?_ hinner hid)
      intro i hi hlt
      rw [hkept i hi hlt, Array.getElem?_modify, if_neg (by omega)]

theorem lowerDefinitions_implements {definitions : List (String × Expr)} {arena later : Arena}
    {defined defined' : List (String × Nat)} (hlater : later.ResolvesTo lib g)
    (h : lowerDefinitions grammar arena defined definitions = .ok (later, defined')) :
    (∀ name i, defined.lookup name = some i → defined'.lookup name = some i) ∧
      ∀ name e, (name, e) ∈ definitions → ∃ id, defined'.lookup name = some id ∧
        lib.Implements g name id e (some name) e.attached := by
  induction definitions generalizing arena defined with
  | nil =>
      cases h
      exact ⟨fun _ _ hname => hname, fun _ _ hmem => by cases hmem⟩
  | cons definition rest ih =>
      obtain ⟨first, e⟩ := definition
      obtain ⟨hnew, arena', id, he, hrest⟩ := lowerDefinitions_cons_iff.1 h
      obtain ⟨hbefore, hbehind⟩ := ih hrest
      have hkept := (lowerDefinitions_kept hrest).2
      rw [Array.size_modify] at hkept
      have hid := (Expr.lower_grows he).2
      have htop : arena'[id]? = some arena'[id] := Array.getElem?_eq_getElem (by omega)
      have hextension := (Expr.lower_top he htop).2
      constructor
      · intro name i hname
        apply hbefore
        rw [List.lookup_append, hname]
        rfl
      · intro name e' hmem
        rcases List.mem_cons.1 hmem with heq | hmem
        · cases heq
          refine ⟨id, ?_, Expr.lower_implements hlater he ?_ htop ?_⟩
          · apply hbefore
            rw [List.lookup_append, hnew, List.lookup_cons_self]
            rfl
          · intro i _ hi
            rw [hkept i (by omega), Array.getElem?_modify, if_neg (by omega)]
          · rw [hkept id (by omega), Array.getElem?_modify, if_pos rfl, htop, ← hextension]
            rfl
        · exact hbehind name e' hmem

end Lower

namespace Library

/-- In a grammar that was added, the name of every definition stands for a rule that implements it. -/
theorem implements_of_build {lib : Library} {draft : Draft} {grammar : Grammar} (hlib : lib.Linked)
    (hincludes : ∀ inner ∈ draft.includes, inner < lib.grammars.size)
    (hbuild : lib.build draft = .ok grammar) {name : String} {e : Expr}
    (he : (name, e) ∈ draft.definitions) :
    ∃ id,
      (⟨lib.grammars.push grammar⟩ : Library).lookup lib.grammars.size name =
        some ⟨lib.grammars.size, id⟩ ∧
      (⟨lib.grammars.push grammar⟩ : Library).Implements lib.grammars.size name id e (some name)
        e.attached := by
  obtain ⟨arena, ref, inherited, hlower, hsize, hget⟩ := exists_lowering_of_build hbuild
  have hdraft := (build_references hbuild).1
  have hfound : (⟨lib.grammars.push grammar⟩ : Library).grammar? lib.grammars.size = some grammar := by
    rw [grammar?_push, if_pos rfl]
  have hresolves : arena.ResolvesTo ⟨lib.grammars.push grammar⟩ lib.grammars.size := by
    refine ⟨⟨ref, inherited, fun i source hi => ?_⟩, (hlib.push hincludes hbuild).references⟩
    have hlt := (Array.getElem?_eq_some_iff.1 hi).1
    have hrule : grammar.rules[i]? = some grammar.rules[i] := Array.getElem?_eq_getElem (by omega)
    obtain ⟨source', hsource, hresolve⟩ := hget i _ hrule
    rw [hi] at hsource
    cases hsource
    refine ⟨grammar.rules[i], ?_, hresolve⟩
    rw [rule?, hfound, Option.bind_some, hrule]
  obtain ⟨id, hid, himplements⟩ := (lowerDefinitions_implements hresolves hlower).2 name e he
  refine ⟨id, ?_, himplements⟩
  rw [lookup_push_size (hdraft ▸ hincludes) hdraft, lookupDraft, hid]

section Single

variable {draft : Draft} {lib : Library} {name : String}

theorem add_eq_ok_of_isSome (hadd : (Library.add {} draft).toOption.isSome = true) :
    Library.add {} draft = .ok (((Library.add {} draft).toOption).getD {}) := by
  cases hlib : Library.add {} draft with
  | error error =>
      rw [hlib] at hadd
      cases hadd
  | ok lib => rfl

variable (hincludes : draft.includes = []) (hadd : Library.add {} draft = .ok lib)

include hincludes hadd

theorem implements_of_single {e : Expr} (he : (name, e) ∈ draft.definitions) :
    ∃ id, lib.lookup 0 name = some ⟨0, id⟩ ∧
      lib.Implements 0 name id e (some name) e.attached := by
  obtain ⟨grammar, hbuild, rfl⟩ := exists_build_of_add hadd
  exact implements_of_build Built.empty.linked (by simp [hincludes]) hbuild he

theorem exists_definition_of_single {r : RuleRef} (hr : lib.lookup 0 name = some r) :
    ∃ e, (name, e) ∈ draft.definitions := by
  obtain ⟨grammar, hbuild, rfl⟩ := exists_build_of_add hadd
  have hdraft := (build_references hbuild).1
  have hfound : lookupDraft {} draft grammar.defined name = some r := by
    rw [← lookup_push_size (by simp [hdraft, hincludes]) hdraft]
    exact hr
  have hmem : name ∈ grammar.ruleNames := by
    unfold lookupDraft at hfound
    split at hfound
    · next rule hrule => exact List.mem_map.2 ⟨_, mem_of_lookup_eq_some hrule, rfl⟩
    · simp [lookupIncluded, hincludes] at hfound
  rw [(spells_of_build hbuild).names] at hmem
  obtain ⟨definition, hdefinition, rfl⟩ := List.mem_map.1 hmem
  exact ⟨definition.2, hdefinition⟩

end Single

end Library

end Peg
