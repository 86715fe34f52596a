import Peg.Proofs.Match.Reading
import Peg.Proofs.Parse.Furthest
import Peg.Proofs.Semantics.Wrappers

/-!
# Parses with wrappers around an expression

An expression that is put inside a choice of nothing else, or inside a label, matches by the same trees
and fails with the same errors. The wrapper is not seen in a tree but by the label, which becomes one more
name of the nodes that the wrapper stands around. Main statement: `Site.parse_wrapped`.
-/

namespace Peg

namespace Match

section

variable (lib lib' : Library) (S : RuleRef → RuleRef → Prop) (label? : Option String)
  (wrapper : RuleRef)

/-- The nodes at the tops cover the same text and stand for rules of the same kind. The second one has
the same names if there is no label, and else also the label if the wrapper is among its wrappers. -/
structure SameNode (m m' : Match) : Prop where
  source : m'.node.source = m.node.source
  place : m'.node.place = m.node.place
  length : m'.length = m.length
  kind : ∃ rule rule', lib.rule? m.rule = some rule ∧ lib'.rule? m'.rule = some rule' ∧
    rule.kind.Corresponds S m.rule m'.rule rule'.kind
  names : label? = none → m'.names = m.names
  mem_names : ∀ name, name ∈ m'.names ↔
    name ∈ m.names ∨ wrapper ∈ m'.node.derivation.chain ∧ label? = some name

/-- The second match is the first one, but for the label of the wrapper: the nodes are the same from the
top down, with as many below each of them. -/
inductive Rewrapped : Match → Match → Prop
  | mk {m m' : Match} : SameNode lib lib' S label? wrapper m m' →
      List.Forall₂ Rewrapped m.children m'.children → Rewrapped m m'

end

variable {lib lib' : Library} {S : RuleRef → RuleRef → Prop} {label? : Option String}
  {wrapper : RuleRef} {outer : Rule RuleRef}

theorem sameNode_ofDerivation (houter : lib'.rule? wrapper = some outer)
    (hlabel : outer.label = label?) (source : List Char) (p : Place) {d d' : Derivation}
    (h : d.Rewrapped lib lib' S label? wrapper d') :
    SameNode lib lib' S label? wrapper (ofDerivation lib source p d)
      (ofDerivation lib' source p d') := by
  have hnode := ofDerivation_node lib source p d
  have hnode' := ofDerivation_node lib' source p d'
  obtain ⟨hnames, hmem⟩ := h.chain.chainNames houter hlabel
  constructor
  · rw [hnode, hnode']
  · rw [hnode, hnode']
  · rw [length, length, hnode, hnode']
    exact h.length_eq.symm
  · obtain ⟨⟨_, _, ⟨hrule, hrule', hkind, _, _, _⟩⟩, -⟩ := h.primary
    rw [rule, rule, hnode, hnode']
    exact ⟨_, _, hrule, hrule', hkind⟩
  · rw [names, names, hnode, hnode']
    exact hnames
  · rw [names, names, hnode, hnode']
    exact hmem

mutual

theorem rewrapped_parts (houter : lib'.rule? wrapper = some outer) (hlabel : outer.label = label?)
    (source : List Char) (p : Place) {d d' : Derivation}
    (h : d.Rewrapped lib lib' S label? wrapper d') :
    List.Forall₂ (Rewrapped lib lib' S label? wrapper) (ofDerivations lib source p d.parts)
      (ofDerivations lib' source p d'.parts) := by
  cases h with
  | branch n _ hparts =>
      rw [Derivation.parts_behind]
      exact rewrapped_ofDerivations houter hlabel source p hparts
  | wrapped _ hinner =>
      have hparts := rewrapped_parts houter hlabel source p hinner
      rw [Derivation.parts_behind]
      exact hparts

theorem rewrapped_ofDerivations (houter : lib'.rule? wrapper = some outer)
    (hlabel : outer.label = label?) (source : List Char) (p : Place) {ds ds' : List Derivation}
    (h : List.Forall₂ (Derivation.Rewrapped lib lib' S label? wrapper) ds ds') :
    List.Forall₂ (Rewrapped lib lib' S label? wrapper) (ofDerivations lib source p ds)
      (ofDerivations lib' source p ds') := by
  cases h with
  | nil => simp [ofDerivations]
  | cons hd hds =>
      have hparts := rewrapped_parts houter hlabel source p hd
      rw [ofDerivations_cons, ofDerivations_cons, hd.length_eq]
      refine .cons (.mk (sameNode_ofDerivation houter hlabel source p hd) ?_)
        (rewrapped_ofDerivations houter hlabel source _ hds)
      rw [ofDerivation_children, ofDerivation_children]
      exact hparts

end

theorem rewrapped_ofDerivation (houter : lib'.rule? wrapper = some outer)
    (hlabel : outer.label = label?) (source : List Char) (p : Place) {d d' : Derivation}
    (h : d.Rewrapped lib lib' S label? wrapper d') :
    Rewrapped lib lib' S label? wrapper (ofDerivation lib source p d)
      (ofDerivation lib' source p d') := by
  refine .mk (sameNode_ofDerivation houter hlabel source p h) ?_
  rw [ofDerivation_children, ofDerivation_children]
  exact rewrapped_parts houter hlabel source p h

end Match

/-- Both parses matched, up to the label of the wrapper in the same way, or failed with the same error. -/
inductive RewrappedResult (lib lib' : Library) (S : RuleRef → RuleRef → Prop)
    (label? : Option String) (wrapper : RuleRef) :
    Except ParseError Match → Except ParseError Match → Prop
  | ok {m m' : Match} : m.Rewrapped lib lib' S label? wrapper m' →
      RewrappedResult lib lib' S label? wrapper (.ok m) (.ok m')
  | error (e : ParseError) : RewrappedResult lib lib' S label? wrapper (.error e) (.error e)

/-- The options ask for the same parse, whatever the limits are and whether or not there is a memo. -/
structure ParseOptions.Agrees (o o' : ParseOptions) : Prop where
  startOffset : o'.startOffset = o.startOffset
  requireFullConsumption : o'.requireFullConsumption = o.requireFullConsumption
  root : o'.root = o.root

namespace Library

variable {lib lib' : Library} {S : RuleRef → RuleRef → Prop} {label? : Option String}
  {wrapper : RuleRef}

theorem rewrapped_verdict {outer : Rule RuleRef} (houter : lib'.rule? wrapper = some outer)
    (hlabel : outer.label = label?) {options options' : ParseOptions} (h : options.Agrees options')
    (source : List Char) (p : Place) {o o' : Option Derivation}
    (hrel : Option.Rel (Derivation.Rewrapped lib lib' S label? wrapper) o o') (furthest : Nat) :
    RewrappedResult lib lib' S label? wrapper (lib.verdict options source p o furthest)
      (lib'.verdict options' source p o' furthest) := by
  cases hrel with
  | none => exact .error _
  | some hd =>
      simp only [verdict, h.requireFullConsumption, hd.length_eq]
      split
      · exact .error _
      · exact .ok (Match.rewrapped_ofDerivation houter hlabel source p hd)

end Library

theorem Expr.asFaultless_wrapped (e : Expr) (label? : Option String) :
    e.AsFaultless (e.wrapped label?) := by
  have hnode : (e.wrapped label?).IsNode := by
    cases label? <;> exact fun _ _ heq => by cases heq
  have hparts : (e.wrapped label?).parts = [e] := by
    cases label? <;> rfl
  constructor
  · refine (throughout_single_iff hnode hparts ?_).symm
    cases label? with
    | none => exact List.cons_ne_nil e []
    | some name => trivial
  · intro draft lib rule
    refine (throughout_single_iff hnode hparts ?_).symm
    cases label? <;> trivial

/-! ## In every place -/

namespace Site

section BuiltFrom

variable {site : Site} {e : Expr} {label? : Option String} {lib lib' : Library}
  (hlib : lib.BuiltFrom (site.drafts e)) (hlib' : lib'.BuiltFrom (site.drafts (e.wrapped label?)))

include hlib hlib'

theorem run_wrapped {wrapper : RuleRef} (hwrapper : site.rule? lib' = some wrapper) {r r' : RuleRef}
    (hr : site.Counterpart e (e.wrapped label?) lib lib' r r') {s s' : State} (hs : lib.Ready s)
    (hs' : lib'.Ready s') (hplace : s'.place = s.place)
    (hfurthest : s'.cursor.furthest = s.cursor.furthest)
    (hunlimited : (lib.run r s).2.cursor.reachedLimit = false)
    (hunlimited' : (lib'.run r' s').2.cursor.reachedLimit = false) :
    Option.Rel
        (Derivation.Rewrapped lib lib' (site.Counterpart e (e.wrapped label?) lib lib') label? wrapper)
        (lib.run r s).1 (lib'.run r' s').1 ∧
      (lib'.run r' s').2.cursor.furthest = (lib.run r s).2.cursor.furthest := by
  have hknows := hr.knows
  obtain ⟨extent, hout, hspends⟩ :=
    (Library.run_follows hlib.built.closed hknows.1 hs).leads.means hunlimited
  obtain ⟨extent', hout', hspends'⟩ :=
    (Library.run_follows hlib'.built.closed hknows.2 hs').leads.means hunlimited'
  obtain ⟨o, extent'', hecho, hrel, hreach⟩ := echoes_wrapped hlib hlib' hwrapper hout r' hr
  rw [hplace] at hout'
  obtain ⟨hsame, rfl⟩ := Library.Yields.unique hout' hecho
  rw [hsame]
  refine ⟨hrel, ?_⟩
  have hreach : extent.reach = extent'.reach := hreach
  rw [hspends.furthest, hspends'.furthest, hfurthest, hreach]

theorem parse_rewrapped {wrapper : RuleRef} {outer : Rule RuleRef}
    (hwrapper : site.rule? lib' = some wrapper) (houter : lib'.rule? wrapper = some outer)
    (hlabel : outer.label = label?) (g : Nat) (text : String) {options options' : ParseOptions}
    (hoptions : options.Agrees options') (h : ¬ LimitError (lib.parse g text options))
    (h' : ¬ LimitError (lib'.parse g text options')) :
    RewrappedResult lib lib' (site.Counterpart e (e.wrapped label?) lib lib') label? wrapper
      (lib.parse g text options) (lib'.parse g text options') := by
  have hroots := parseRoot_counterparts hlib hlib' g options.root
  cases hroot : lib.parseRoot g options.root with
  | none =>
      rw [hroot] at hroots
      cases hroot' : lib'.parseRoot g options.root with
      | some r' =>
          rw [hroot'] at hroots
          cases hroots
      | none =>
          simp only [Library.parse, Library.parseLogged, hoptions.root, hroot, hroot']
          exact .error _
  | some r =>
      rw [hroot] at hroots
      cases hroot' : lib'.parseRoot g options.root with
      | none =>
          rw [hroot'] at hroots
          cases hroots
      | some r' =>
          have hr := Library.rel_of_eq_some hroots rfl hroot'
          rw [← hoptions.root] at hroot'
          cases hcursor : Cursor.at? text.toList options.startOffset with
          | none =>
              simp only [Library.parse, Library.parseLogged, hoptions.startOffset, hroot, hroot', hcursor]
              exact .error _
          | some cursor =>
              have hcursor' := hcursor
              rw [← hoptions.startOffset] at hcursor'
              have hin := Cursor.isIn_of_at?_eq_some hcursor
              rw [Library.limitError_parse_iff hroot hcursor, Bool.not_eq_true] at h
              rw [Library.limitError_parse_iff hroot' hcursor', Bool.not_eq_true] at h'
              obtain ⟨hrel, hfurthest⟩ := run_wrapped hlib hlib' hwrapper hr
                (Library.ready_parseStart hin options) (Library.ready_parseStart hin options') rfl rfl h h'
              rw [Library.parse_eq hroot hcursor, Library.parse_eq hroot' hcursor',
                Library.parseResult_of_unlimited h, Library.parseResult_of_unlimited h', hfurthest]
              exact Library.rewrapped_verdict houter hlabel hoptions text.toList cursor.place hrel _

end BuiltFrom

/-- In every place of a grammar an expression may be put inside a choice of nothing else, or inside a
label. Either both grammars are accepted or none is. Parses of which none reports a limit, whatever the
limits are and whether or not there are memos, have the same result: the same error, or trees with the
same nodes, whose rules are of the same kind. The names of the nodes are the same as well, but for the
label, which the nodes have in addition that the wrapper stands around. -/
theorem parse_wrapped (site : Site) (e : Expr) (label? : Option String) :
    ((∃ lib : Library, lib.BuiltFrom (site.drafts e)) ↔
      ∃ lib' : Library, lib'.BuiltFrom (site.drafts (e.wrapped label?))) ∧
    ∀ lib lib' : Library, lib.BuiltFrom (site.drafts e) →
      lib'.BuiltFrom (site.drafts (e.wrapped label?)) →
      ∃ wrapper, site.rule? lib' = some wrapper ∧
        ∀ (g : Nat) (text : String) (options options' : ParseOptions), options.Agrees options' →
          ¬ LimitError (lib.parse g text options) → ¬ LimitError (lib'.parse g text options') →
          RewrappedResult lib lib' (site.Counterpart e (e.wrapped label?) lib lib') label? wrapper
            (lib.parse g text options) (lib'.parse g text options') := by
  refine ⟨site.builtFrom_iff (e.asFaultless_wrapped label?), fun lib lib' hlib hlib' => ?_⟩
  obtain ⟨i, name, x, hwrapper, himplements⟩ := exists_rule? hlib'
  obtain ⟨j, outer, houter, -, hlabel, -, -⟩ := himplements.exists_of_wrapped
  refine ⟨_, hwrapper, fun g text options options' hoptions h h' => ?_⟩
  exact parse_rewrapped hlib hlib' hwrapper houter hlabel g text hoptions h h'

/-- What stands between brackets gets a name. -/
theorem parse_wrapped_between :
    ∃ (lib lib' : Library) (S : RuleRef → RuleRef → Prop) (wrapper : RuleRef) (m m' : Match),
      lib.BuiltFrom (between.drafts (.upTo (.literal ">"))) ∧
        lib'.BuiltFrom (between.drafts (.label (.upTo (.literal ">")) "inside")) ∧
        lib.parse 0 "<ab>" {} = .ok m ∧ lib'.parse 0 "<ab>" {} = .ok m' ∧
        m.Rewrapped lib lib' S (some "inside") wrapper m' ∧
        m.children.map Match.names = [[], [], []] ∧
        m'.children.map Match.names = [[], ["inside"], []] := by
  let scan : Expr := .upTo (.literal ">")
  let lib (e : Expr) : Library := ((Library.add {} (between.draft e)).toOption).getD {}
  let parse (e : Expr) := (lib e).parse 0 "<ab>" {}
  let names (e : Expr) := (parse e).toOption.map fun m => m.children.map Match.names
  have hlib : (lib scan).BuiltFrom (between.drafts scan) :=
    builtFrom_between (Library.add_eq_ok_of_isSome (by decide +kernel))
  have hlib' : (lib (scan.wrapped "inside")).BuiltFrom (between.drafts (scan.wrapped "inside")) :=
    builtFrom_between (Library.add_eq_ok_of_isSome (by decide +kernel))
  have hnames : names scan = some [[], [], []] := by decide +kernel
  have hnames' : names (scan.wrapped "inside") = some [[], ["inside"], []] := by decide +kernel
  obtain ⟨m, hm, hchildren⟩ := Option.map_eq_some_iff.1 hnames
  obtain ⟨m', hm', hchildren'⟩ := Option.map_eq_some_iff.1 hnames'
  obtain ⟨wrapper, -, hresults⟩ := (parse_wrapped between scan (some "inside")).2 _ _ hlib hlib'
  have hresult := hresults 0 "<ab>" {} {} ⟨rfl, rfl, rfl⟩
    (not_limitError_of_isSome (Option.isSome_iff_exists.2 ⟨m, hm⟩))
    (not_limitError_of_isSome (Option.isSome_iff_exists.2 ⟨m', hm'⟩))
  generalize hparse : (lib scan).parse 0 "<ab>" {} = result at hresult
  generalize hparse' : (lib (scan.wrapped "inside")).parse 0 "<ab>" {} = result' at hresult
  simp only [parse, hparse] at hm
  simp only [parse, hparse'] at hm'
  cases hresult with
  | error error => cases hm
  | ok hrewrapped =>
      cases hm
      cases hm'
      exact ⟨_, _, _, wrapper, m, m', hlib, hlib', hparse, hparse', hrewrapped, hchildren, hchildren'⟩

end Site

end Peg
