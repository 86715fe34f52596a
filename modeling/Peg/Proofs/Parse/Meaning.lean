import Peg.Proofs.Parse.Derived
import Peg.Proofs.Parse.Names
import Peg.Proofs.Parse.Test
import Peg.Proofs.Semantics.Depth

/-!
# Parses without a call limit

A parse with the usual options is refused nothing but depth, and that only where the executions of its
root rule may nest deeper than the usual limit. Where it was refused none, it succeeds exactly if its
root rule yields a match of the whole text, and then with that match. Main statements:
`Library.parse_eq_ok_iff_of_built`, `Library.maxDepth_lt_of_depthLimit`, and
`Library.parse_value_of_single` for what a grammar of its own means.
-/

namespace Peg

theorem Parsed.map_result {α β : Type} (f : α → β) (p : Parsed α) :
    (p.map f).result = p.result.map f :=
  rfl

namespace Library

variable {lib : Library} {g : Nat} {root : RuleRef}

theorem calls_exceeded_run {r : RuleRef} {s : State} (hlimit : s.cursor.calls.limit = none) :
    (lib.run r s).2.cursor.calls.exceeded = s.cursor.calls.exceeded := by
  rw [CallBudget.exceeded, (lib.run_forward r s).allowed hlimit]
  rfl

theorem verdict_of_length {source : List Char} {place : Place} {options : ParseOptions}
    {d : Derivation} {furthest : Nat} (h : place.offset + d.length = byteLength source) :
    lib.verdict options source place (some d) furthest = .ok (.ofDerivation lib source place d) := by
  simp [verdict, h]

/-- Unless it is nested too deep, a parse with the usual options succeeds if and only if the root rule
matches the whole text. -/
theorem parse_eq_ok_iff_of_built (hlib : lib.Built) (hroot : lib.parseRoot g none = some root)
    (text : String) :
    FailsWith .depthLimit (lib.parse g text {}) ∨
      ∀ m, lib.parse g text {} = .ok m ↔
        ∃ d e, lib.Yields root (.start text.toList) (some d) e ∧
          d.length = byteLength text.toList ∧
          m = .ofDerivation lib text.toList (.start text.toList) d := by
  let start : State := parseStart {} (.new text.toList)
  have hparse : lib.parse g text {} = _ := parse_eq hroot (Cursor.at?_zero text.toList)
  have hcalls : (lib.run root start).2.cursor.calls.exceeded = false := calls_exceeded_run rfl
  rw [hparse]
  cases hnesting : (lib.run root start).2.cursor.nesting.exceeded with
  | true =>
      left
      rw [parseResult_of_nesting hcalls hnesting]
      exact failsWith_ofOffset _ _ _
  | false =>
      right
      have hreached : (lib.run root start).2.cursor.reachedLimit = false :=
        Cursor.reachedLimit_eq_false_iff.2 ⟨hcalls, hnesting⟩
      obtain ⟨⟨e, hyields, -⟩, hunique⟩ :=
        run_sound hlib (hlib.closed.knows_parseRoot hroot) (Place.isIn_start text.toList) hreached
      have hplace : (Cursor.new text.toList).place = .start text.toList := rfl
      have hzero (n : Nat) : (Place.start text.toList).offset + n = n := Nat.zero_add n
      rw [parseResult_of_unlimited hreached]
      intro m
      constructor
      · intro hok
        obtain ⟨d, hd, rfl, hfull⟩ := verdict_eq_ok hok
        have hlength := hfull rfl
        rw [hplace, hzero] at hlength
        exact ⟨d, e, hd ▸ hyields, hlength, rfl⟩
      · rintro ⟨d, e', hyields', hlength, rfl⟩
        have hd : some d = (lib.run root start).1 := hunique _ _ hyields'
        rw [← hd, hplace]
        exact verdict_of_length (by rw [hzero, hlength])

/-- A parse with the usual options that reports its depth as the limit is one whose executions are not
bound to nest less deep. -/
theorem maxDepth_lt_of_depthLimit (hlib : lib.Built) (hroot : lib.parseRoot g none = some root)
    {text : String} {n : Nat} (hsettles : lib.Settles root text.toList n)
    (h : FailsWith .depthLimit (lib.parse g text {})) : defaultMaxDepth < n := by
  by_contra hle
  have hroom : n ≤ (Cursor.new text.toList).nesting.room := Nat.not_lt.1 hle
  have hreached := hsettles.unlimited hlib (hlib.closed.knows_parseRoot hroot)
    (Place.isIn_start text.toList) rfl rfl hroom
  rw [parse_eq hroot (Cursor.at?_zero text.toList)] at h
  have hlimit := limitError_parseResult_iff.1 (.inr h)
  exact Bool.false_ne_true (hreached.symm.trans hlimit)

section Single

variable {draft : Draft} {name : String} {e : Expr} {rest : List (String × Expr)}
  (hincludes : draft.includes = []) (hadd : Library.add {} draft = .ok lib)

include hincludes hadd

theorem exists_parseRoot_of_single (hunnamed : draft.root = none)
    (hfirst : draft.definitions = (name, e) :: rest) :
    ∃ r, lib.parseRoot 0 none = some r ∧ lib.lookup 0 name = some r := by
  obtain ⟨grammar, hbuild, rfl⟩ := exists_build_of_add hadd
  have hrealizes := realizes_push_size (by simp [hincludes]) hbuild
  have hroot := hrealizes.root
  rw [draftRoot?, hunnamed, hfirst] at hroot
  refine ⟨grammar.root, ?_, hroot⟩
  rw [parseRoot]
  exact congrArg (Option.map _) hrealizes.found

theorem maxDepth_lt_of_single {L : String → List Char → Prop} {H : String → List Char → Nat}
    (hunnamed : draft.root = none) (hfirst : draft.definitions = (name, e) :: rest)
    (hL : ∀ definition ∈ draft.definitions, ∀ u, definition.2.Generates L u → L definition.1 u)
    (hH : ∀ definition ∈ draft.definitions, ∀ text,
      definition.2.Nests L H text (H definition.1 text))
    {text : String} {error : ParseError}
    (h : (lib.parse 0 text {}).map Match.value = .error error) (hkind : error.kind = .depthLimit) :
    defaultMaxDepth < H name text.toList := by
  have hbuilt : lib.Built := .add .empty (by simp [hincludes]) hadd
  obtain ⟨root, hroot, hlookup⟩ := exists_parseRoot_of_single hincludes hadd hunnamed hfirst
  have hsettles := settles_of_single hincludes hadd hL hH hlookup text.toList
  refine maxDepth_lt_of_depthLimit hbuilt hroot hsettles ⟨error, ?_, hkind⟩
  cases hparse : lib.parse 0 text {} with
  | error error' =>
      rw [hparse] at h
      cases h
      rfl
  | ok m =>
      rw [hparse] at h
      cases h

/-- What a grammar of its own means, if its first definition reads whatever has a value and all that
it derives has one. -/
theorem parse_value_of_single {means : List Char → Value → Prop} (hunnamed : draft.root = none)
    (hfirst : draft.definitions = (name, e) :: rest)
    (hreads : ∀ u v, means u v → lib.ReadsNamed 0 name u [] fun m => m.value = v)
    (hderives : ∀ r p d, lib.lookup 0 name = some r → lib.Derives r p d →
      TakesUp (fun u => ∃ v, means u v) p d) (text : String) :
    (∃ error, (lib.parse 0 text {}).map Match.value = .error error ∧ error.kind = .depthLimit) ∨
      ∀ v, (lib.parse 0 text {}).map Match.value = .ok v ↔ means text.toList v := by
  have hbuilt : lib.Built := .add .empty (by simp [hincludes]) hadd
  obtain ⟨root, hroot, hlookup⟩ := exists_parseRoot_of_single hincludes hadd hunnamed hfirst
  obtain ⟨error, herror, hkind⟩ | hparse := parse_eq_ok_iff_of_built hbuilt hroot text
  · exact .inl ⟨error, by rw [herror, Except.map], hkind⟩
  right
  intro v
  have hfound (v : Value) (hv : means text.toList v) := hreads _ v hv root hlookup 0
  rw [List.append_nil] at hfound
  constructor
  · intro hok
    obtain ⟨m, hm, rfl⟩ : ∃ m, lib.parse 0 text {} = .ok m ∧ m.value = v := by
      cases hm : lib.parse 0 text {} with
      | error error =>
          rw [hm] at hok
          cases hok
      | ok m =>
          rw [hm] at hok
          exact ⟨m, rfl, Except.ok.inj hok⟩
    obtain ⟨d, extent, hyields, hlength, rfl⟩ := (hparse m).1 hm
    obtain ⟨u, back, htext, hu, v, hv⟩ := hderives root _ d hlookup (Yields.derives hyields)
    have hwhole : back = [] := by
      apply eq_nil_of_byteLength
      have hbytes := congrArg byteLength htext
      rw [byteLength_append, ← hu, hlength] at hbytes
      exact Nat.add_left_cancel (hbytes.symm.trans (Nat.add_zero _).symm)
    rw [hwhole, List.append_nil] at htext
    rw [← htext] at hv
    obtain ⟨d', extent', hyields', -, -, hvalue⟩ := hfound v hv
    obtain ⟨hsame, -⟩ := Yields.unique hyields hyields'
    cases hsame
    have hvalued : (Match.ofDerivation lib text.toList (.start text.toList) d).value = v :=
      hvalue text.toList
    rwa [hvalued]
  · intro hv
    obtain ⟨d, extent, hyields, hlength, -, hvalue⟩ := hfound v hv
    rw [(hparse _).2 ⟨d, extent, hyields, hlength, rfl⟩, Except.map]
    exact congrArg Except.ok (hvalue text.toList)

end Single

end Library

end Peg
