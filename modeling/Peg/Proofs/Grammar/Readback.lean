import Peg.Proofs.Extension
import Peg.Proofs.Grammar.Layout
import Peg.Proofs.Parse.Names

/-!
# Reading expressions back

A rule with the rules that it is made of reads as an expression. The definitions of a draft are read
back from the rules that they were lowered to, but for what lowering settles: extensions of
extensions are merged, and a reference to the rule above has the name of its definition if it was
given none. Main statement: `Library.build_lays_out`.
-/

namespace Peg

/-! ## The expression of a rule -/

/-- The text of the pattern inside the group that ties it to the place. -/
def Pattern.body (p : Pattern) : String := String.ofList (p.source.toList.drop 4).dropLast

theorem Pattern.body_of_anchored {source : String} {p : Pattern}
    (h : Pattern.anchored? source = some p) : p.body = source := by
  have hsource : p.source = "^(?:" ++ source ++ ")" := by
    unfold anchored? ofSource? at h
    obtain ⟨regex, -, hp⟩ := Option.bind_eq_some_iff.1 h
    split at hp
    · cases hp
      rfl
    · cases hp
  simp [body, hsource]

section Readback

variable {τ : Type}

/-- The expression of a kind of rule, `part` telling those of the rules that it is made of. -/
def Kind.expr? (part : Nat → Option Expr) (label : Option String) : Kind τ → Option Expr
  | .terminal (.pattern p) => some (.pattern p.body)
  | .terminal (.range first last) => some (.range first last)
  | .terminal .any => some .any
  | .terminal .endOfInput => some .endOfInput
  | .text literal ignoreCase => some (.text (String.ofList literal) ignoreCase)
  | .sequence parts => (parts.mapM part).map .seq
  | .choice options => (options.mapM part).map .choice
  | .rep body least most => (part body).map (.rep · least most)
  | .ahead body => (part body).map .ahead
  | .notAhead body => (part body).map .notAhead
  | .upTo stop => (part stop).map .upTo
  | .ref name _ => some (.ref name)
  | .inherited name _ => some (.inherited (some name))
  | .label body => (part body).bind fun e => label.map (.label e)

def Rule.attach (rule : Rule τ) (e : Expr) : Expr :=
  match rule.extension with
  | none => e
  | some extension => .extended e extension

/-- The expression of a rule, `part` telling those of the rules that it is made of. -/
def Rule.expr? (part : Nat → Option Expr) (rule : Rule τ) : Option Expr :=
  (rule.kind.expr? part rule.label).map rule.attach

/-- The expression that the rule of a number reads as, with the rules that it is made of. -/
def readBack? (rules : Array (Rule τ)) (i : Nat) : Option Expr :=
  rules[i]?.bind (Rule.expr? fun j => if j < i then readBack? rules j else none)
termination_by i

variable {τ' : Type} {rules : Array (Rule τ)} {rules' : Array (Rule τ')} {i n : Nat} {rule : Rule τ}

theorem Kind.isNode_of_expr? {part : Nat → Option Expr} {label : Option String} {kind : Kind τ}
    {e : Expr} (h : kind.expr? part label = some e) : e.IsNode := by
  intro body extension heq
  subst heq
  cases kind with
  | terminal matcher => cases matcher <;> simp [expr?] at h
  | label => simp [expr?, Option.bind_eq_some_iff] at h
  | _ => simp [expr?] at h

theorem mapM_option_congr {α β : Type} {f g : α → Option β} {xs : List α}
    (h : ∀ x ∈ xs, f x = g x) : xs.mapM f = xs.mapM g := by
  induction xs with
  | nil => rfl
  | cons x xs ih =>
      rw [List.forall_mem_cons] at h
      simp only [List.mapM_cons, h.1, ih h.2]

theorem Kind.expr?_congr {part part' : Nat → Option Expr} {label : Option String} {kind : Kind τ}
    (h : ∀ j ∈ kind.children, part j = part' j) : kind.expr? part label = kind.expr? part' label := by
  cases kind with
  | terminal matcher => cases matcher <;> rfl
  | text | ref | inherited => rfl
  | sequence parts | choice parts =>
      have hparts : parts.mapM part = parts.mapM part' := mapM_option_congr h
      simp only [expr?, hparts]
  | rep | ahead | notAhead | upTo | label =>
      simp only [expr?, h _ (List.mem_singleton.2 rfl)]

theorem readBack?_eq (hi : rules[i]? = some rule) (hlt : ∀ j ∈ rule.kind.children, j < i) :
    readBack? rules i = rule.expr? (readBack? rules) := by
  have hparts : rule.kind.expr? (fun j => if j < i then readBack? rules j else none) rule.label =
      rule.kind.expr? (readBack? rules) rule.label :=
    Kind.expr?_congr fun j hj => if_pos (hlt j hj)
  rw [readBack?, hi, Option.bind_some]
  unfold Rule.expr?
  rw [hparts]

theorem readBack?_congr
    (h : ∀ i < n, ∀ part, rules'[i]?.bind (Rule.expr? part) = rules[i]?.bind (Rule.expr? part))
    (hi : i < n) : readBack? rules' i = readBack? rules i := by
  induction i using Nat.strongRecOn with
  | ind i ih =>
      have hparts : (fun j => if j < i then readBack? rules' j else none) =
          fun j => if j < i then readBack? rules j else none := by
        funext j
        by_cases hj : j < i
        · rw [if_pos hj, if_pos hj, ih j hj (by omega)]
        · rw [if_neg hj, if_neg hj]
      rw [readBack?, readBack?, hparts, h i hi]

theorem readBack?_of_kept {later : Array (Rule τ)} (h : ∀ i < n, later[i]? = rules[i]?)
    (hi : i < n) : readBack? later i = readBack? rules i := by
  apply readBack?_congr _ hi
  intro j hj part
  rw [h j hj]

end Readback

/-! ## What lowering settles -/

mutual

/-- The expression as it is read back from the definition `rule`. -/
def Expr.settled (rule : String) : Expr → Expr
  | .seq parts => .seq (settledAll rule parts)
  | .choice options => .choice (settledAll rule options)
  | .rep body least most => .rep (body.settled rule) least most
  | .ahead body => .ahead (body.settled rule)
  | .notAhead body => .notAhead (body.settled rule)
  | .upTo stop => .upTo (stop.settled rule)
  | .inherited name => .inherited (some (name.getD rule))
  | .label body name => .label (body.settled rule) name
  | .extended body extension => (body.settled rule).extend extension
  | e => e

def Expr.settledAll (rule : String) : List Expr → List Expr
  | [] => []
  | e :: es => e.settled rule :: settledAll rule es

end

namespace Expr

variable {rule : String}

theorem settledAll_eq_map (es : List Expr) : settledAll rule es = es.map (settled rule) := by
  induction es with
  | nil => rfl
  | cons e es ih => simp [settledAll, ih]

theorem extend_of_isNode {e : Expr} (he : e.IsNode) (extension : Extension) :
    e.extend extension = extended e extension := by
  cases e with
  | extended body inner => exact absurd rfl (he body inner)
  | _ => rfl

theorem exists_of_mapM_eq_singleton {α β : Type} {f : α → Option β} {xs : List α} {y : β}
    (h : xs.mapM f = some [y]) : ∃ x, xs = [x] ∧ f x = some y := by
  cases xs with
  | nil => simp at h
  | cons x xs =>
      cases xs with
      | nil =>
          obtain ⟨y', hy, heq⟩ := Option.bind_eq_some_iff.1 (by simpa using h)
          cases heq
          exact ⟨x, rfl, hy⟩
      | cons x' xs => simp [Option.bind_eq_some_iff] at h

theorem expr?_top {e : Expr} {ids : List Nat} {top : Rule String} {part : Nat → Option Expr}
    (htop : e.top? rule ids = some top)
    (hparts : ids.mapM part = some (e.parts.map (settled rule))) :
    top.expr? part = some (e.settled rule) := by
  cases e with
  | text | any | endOfInput | ref | inherited =>
      cases htop
      simp [Rule.expr?, Rule.ofKind, Kind.expr?, Rule.attach, settled]
  | pattern source =>
      obtain ⟨p, hp, rfl⟩ := Option.map_eq_some_iff.1 htop
      simp [Rule.expr?, Rule.ofKind, Kind.expr?, Rule.attach, settled, Pattern.body_of_anchored hp]
  | range first last =>
      simp only [top?, Option.ite_none_left_eq_some, Option.some.injEq] at htop
      rw [← htop.2]
      simp [Rule.expr?, Rule.ofKind, Kind.expr?, Rule.attach, settled]
  | seq es | choice es =>
      simp only [top?, Option.ite_none_left_eq_some, Option.some.injEq] at htop
      rw [← htop.2]
      simp only [parts] at hparts
      simp [Rule.expr?, Rule.ofKind, Kind.expr?, Rule.attach, settled, hparts, settledAll_eq_map]
  | rep body least most =>
      obtain ⟨id, rfl, hid⟩ := exists_of_mapM_eq_singleton hparts
      simp only [top?, Option.ite_none_left_eq_some, Option.some.injEq] at htop
      rw [← htop.2]
      simp [Rule.expr?, Rule.ofKind, Kind.expr?, Rule.attach, settled, hid]
  | ahead | notAhead | upTo | label =>
      obtain ⟨id, rfl, hid⟩ := exists_of_mapM_eq_singleton hparts
      cases htop
      simp [Rule.expr?, Rule.ofKind, Kind.expr?, Rule.attach, settled, hid]
  | extended => cases htop

end Expr

theorem Rule.expr?_extend {rule : Rule String} {part : Nat → Option Expr} {e : Expr}
    (h : rule.expr? part = some e) (extension : Extension) :
    (rule.extend extension).expr? part = some (e.extend extension) := by
  obtain ⟨node, hnode, rfl⟩ := Option.map_eq_some_iff.1 h
  have he := Kind.isNode_of_expr? hnode
  unfold Rule.expr?
  simp only [Rule.extend, hnode, Option.map_some, Option.some.injEq, Rule.attach]
  cases rule.extension with
  | none => exact (Expr.extend_of_isNode he extension).symm
  | some inner => rfl

section Lower

variable {grammar rule : String}

theorem Expr.lowerAll_readBack {es : List Expr}
    (hes : ∀ e ∈ es, ∀ {arena later : Arena} {id : Nat}, LaidOut arena →
      e.lower grammar rule arena = .ok (later, id) → readBack? later id = some (e.settled rule))
    {arena later : Arena} {ids : List Nat} (hlaid : LaidOut arena)
    (h : Expr.lowerAll grammar rule arena es = .ok (later, ids)) :
    ids.mapM (readBack? later) = some (es.map (settled rule)) := by
  induction es generalizing arena ids with
  | nil =>
      cases h
      rfl
  | cons e es ih =>
      obtain ⟨arena', id, ids', he, hrest, rfl⟩ := lowerAll_cons_iff.1 h
      obtain ⟨-, hid⟩ := lower_grows he
      have hgrows := lowerAll_grows (fun _ _ => lower_grows) hrest
      have hfirst : readBack? later id = some (e.settled rule) := by
        rw [readBack?_of_kept hgrows.kept (by omega)]
        exact hes e List.mem_cons_self hlaid he
      have htail := ih (fun e' he' => hes e' (List.mem_cons_of_mem e he'))
        (lower_spans hlaid he).1 hrest
      simp [hfirst, htail]

theorem Expr.lower_readBack {e : Expr} {arena later : Arena} {id : Nat} (hlaid : LaidOut arena)
    (h : e.lower grammar rule arena = .ok (later, id)) :
    readBack? later id = some (e.settled rule) := by
  have hlater := (lower_spans hlaid h).1
  induction e using Expr.induct generalizing arena later id with
  | node e he ih =>
      obtain ⟨arena', ids, top, hparts, htop, hadd⟩ := (lower_node_iff he).1 h
      have hread := lowerAll_readBack (fun e' he' _ _ _ hlaid h => ih e' he' hlaid h
        (lower_spans hlaid h).1) hlaid hparts
      have hchildren := (top?_eq_some htop (length_of_lowerAll hparts)).1
      cases hadd
      have htopAt : (Array.push arena' top)[arena'.size]? = some top := by simp
      have hkept (j : Nat) (hj : j < arena'.size) :
          (Array.push arena' top)[j]? = arena'[j]? := by
        rw [Array.getElem?_push, if_neg (by omega)]
      rw [readBack?_eq htopAt fun j hj => hlater.lt htopAt hj]
      apply expr?_top htop
      rw [← hread]
      apply mapM_option_congr
      intro j hj
      rw [← hchildren] at hj
      exact readBack?_of_kept hkept (hlater.lt htopAt hj)
  | extended body extension ih =>
      obtain ⟨arena', hbody, rfl⟩ := lower_extended_iff.1 h
      obtain ⟨-, hid⟩ := lower_grows hbody
      have hlaid' := (lower_spans hlaid hbody).1
      have hread := ih hlaid hbody hlaid'
      have hrule : arena'[id]? = some arena'[id] := Array.getElem?_eq_getElem (by omega)
      have hrule' : (arena'.modify id (·.extend extension))[id]? =
          some (arena'[id].extend extension) := by
        rw [Array.getElem?_modify, if_pos rfl, hrule]
        rfl
      have hkept (j : Nat) (hj : j < id) :
          (arena'.modify id (·.extend extension))[j]? = arena'[j]? := by
        rw [Array.getElem?_modify, if_neg (by omega)]
      have hparts : arena'[id].expr? (readBack? (arena'.modify id (·.extend extension))) =
          arena'[id].expr? (readBack? arena') := by
        unfold Rule.expr?
        rw [Kind.expr?_congr fun j hj => readBack?_of_kept hkept (hlaid'.lt hrule hj)]
      rw [readBack?_eq hrule fun j hj => hlaid'.lt hrule hj, ← hparts] at hread
      rw [readBack?_eq hrule' fun j hj => hlater.lt hrule' hj]
      exact Rule.expr?_extend hread extension

end Lower

/-! ## Definitions -/

/-- The rule of a definition, which reads as its settled expression. -/
def ReadsAs {τ : Type} (rules : Array (Rule τ)) (definition : String × Expr)
    (entry : String × Nat) : Prop :=
  entry.1 = definition.1 ∧ readBack? rules entry.2 = some (definition.2.settled definition.1)

theorem readBack?_named {arena : Arena} {id : Nat} {name : String} (i : Nat) :
    readBack? (arena.modify id (Rule.named name)) i = readBack? arena i := by
  apply readBack?_congr _ (Nat.lt_succ_self i)
  intro j _ part
  rw [Array.getElem?_modify]
  by_cases heq : id = j
  · rw [if_pos heq, Option.bind_map]
    rfl
  · rw [if_neg heq]

theorem lowerDefinitions_readBack {grammar : String} {definitions : List (String × Expr)}
    {arena later : Arena} {defined defined' : List (String × Nat)} (h : arena.Holds defined)
    (hlower : lowerDefinitions grammar arena defined definitions = .ok (later, defined')) :
    (∀ i < arena.size, readBack? later i = readBack? arena i) ∧
      ∃ added, defined' = defined ++ added ∧
        List.Forall₂ (ReadsAs later) definitions added := by
  induction definitions generalizing arena defined with
  | nil =>
      cases hlower
      exact ⟨fun _ _ => rfl, [], (List.append_nil _).symm, .nil⟩
  | cons definition rest ih =>
      obtain ⟨name, e⟩ := definition
      obtain ⟨-, arena', id, he, hrest⟩ := lowerDefinitions_cons_iff.1 hlower
      obtain ⟨hgrows, hid⟩ := Expr.lower_grows he
      have hsize := hgrows.size
      obtain ⟨hkept, added, rfl, hadded⟩ := ih (h.define he) hrest
      rw [Array.size_modify] at hkept
      have hread : readBack? later id = some (e.settled name) := by
        rw [hkept id (by omega), readBack?_named]
        exact Expr.lower_readBack h.laid he
      refine ⟨?_, (name, id) :: added, by simp, .cons ⟨rfl, hread⟩ hadded⟩
      intro i hi
      rw [hkept i (by omega), readBack?_named]
      exact readBack?_of_kept hgrows.kept hi

/-! ## Grammars -/

section Resolve

variable {ref inherited : String → String → Except GrammarError RuleRef}

theorem Kind.resolve_expr? {kind : Kind String} {kind' : Kind RuleRef}
    (h : kind.resolve ref inherited = .ok kind') (part : Nat → Option Expr) (label : Option String) :
    kind'.expr? part label = kind.expr? part label := by
  cases kind with
  | ref name rule =>
      cases htarget : ref name rule with
      | error e => simp [Kind.resolve, htarget, Except.map] at h
      | ok target =>
          simp only [Kind.resolve, htarget, Except.map, Except.ok.injEq] at h
          rw [← h]
          rfl
  | inherited name rule =>
      cases htarget : inherited name rule with
      | error e => simp [Kind.resolve, htarget, Except.map] at h
      | ok target =>
          simp only [Kind.resolve, htarget, Except.map, Except.ok.injEq] at h
          rw [← h]
          rfl
  | terminal matcher =>
      cases h
      cases matcher <;> rfl
  | _ =>
      cases h
      rfl

/-- A rule whose reference was resolved is the rule that it was otherwise. -/
theorem Rule.resolve_eq_ok {source : Rule String} {rule : Rule RuleRef}
    (h : source.resolve ref inherited = .ok rule) :
    rule.name = source.name ∧ rule.kind.children = source.kind.children ∧
      ∀ part, rule.expr? part = source.expr? part := by
  have hkind := Rule.resolve_kind h
  have hrest : rule.name = source.name ∧ rule.label = source.label ∧
      rule.extension = source.extension := by
    unfold Rule.resolve at h
    simp only [hkind, Except.map, Except.ok.injEq] at h
    rw [← h]
    exact ⟨rfl, rfl, rfl⟩
  refine ⟨hrest.1, (Kind.resolve_eq_ok hkind).1, ?_⟩
  intro part
  unfold Rule.expr? Rule.attach
  rw [Kind.resolve_expr? hkind, hrest.2.1, hrest.2.2]

end Resolve

/-- A grammar holds what its draft says: the definitions in their order, each read back from its rule,
and otherwise only the rules that these are made of, each of them in one place. -/
structure Grammar.Spells (g : Grammar) (draft : Draft) : Prop where
  names : g.ruleNames = draft.definitions.map (·.1)
  reads : List.Forall₂ (ReadsAs g.rules) draft.definitions g.defined
  ordered : ∀ (i : Nat) (rule : Rule RuleRef), g.rules[i]? = some rule →
    ∀ j ∈ rule.kind.children, j < i
  partsApart : ∀ (i : Nat) (rule : Rule RuleRef), g.rules[i]? = some rule →
    rule.kind.children.Pairwise (Apart g.rules)
  definitionsApart : g.defined.Pairwise fun entry entry' => Apart g.rules entry.2 entry'.2
  owned : ∀ i < g.rules.size, ∃! entry, entry ∈ g.defined ∧ Contains g.rules entry.2 i
  named : ∀ (i : Nat) (rule : Rule RuleRef), g.rules[i]? = some rule →
    ∀ name, rule.name = some name ↔ (name, i) ∈ g.defined

theorem Apart.symm {τ : Type} {rules : Array (Rule τ)} {i j : Nat} (h : Apart rules i j) :
    Apart rules j i :=
  fun k hj hi => h k hi hj

theorem existsUnique_of_inRow {τ : Type} {rules : Array (Rule τ)} {defined : List (String × Nat)}
    {last i : Nat} (hrow : InRow rules 0 (defined.map (·.2)) last) (hi : i < last) :
    ∃! entry, entry ∈ defined ∧ Contains rules entry.2 i := by
  obtain ⟨id, hid, hcontains⟩ := hrow.exists_contains_iff.2 ⟨Nat.zero_le i, hi⟩
  obtain ⟨entry, hentry, rfl⟩ := List.mem_map.1 hid
  refine ⟨entry, ⟨hentry, hcontains⟩, ?_⟩
  rintro entry' ⟨hentry', hcontains'⟩
  by_contra hne
  have : Std.Symm fun a b : String × Nat => Apart rules a.2 b.2 := ⟨fun _ _ h => h.symm⟩
  have hapart := (List.pairwise_map.1 hrow.pairwise).forall hentry hentry' (Ne.symm hne)
  exact hapart i hcontains hcontains'

namespace Library

theorem exists_lowering_of_build {lib : Library} {draft : Draft} {grammar : Grammar}
    (hbuild : lib.build draft = .ok grammar) :
    ∃ arena ref inherited,
      lowerDefinitions draft.name #[] [] draft.definitions = .ok (arena, grammar.defined) ∧
        grammar.rules.size = arena.size ∧
        ∀ (i : Nat) (rule : Rule RuleRef), grammar.rules[i]? = some rule →
          ∃ source, arena[i]? = some source ∧ source.resolve ref inherited = .ok rule := by
  unfold build at hbuild
  obtain ⟨⟨arena, defined⟩, hlower, hrest⟩ := exists_of_bind_eq_ok hbuild
  obtain ⟨rules, hrules, hrest⟩ := exists_of_bind_eq_ok hrest
  obtain ⟨root, -, hok⟩ := exists_of_bind_eq_ok hrest
  cases hok
  obtain ⟨hsize, hget⟩ := getElem?_of_array_mapM_eq_ok hrules
  exact ⟨arena, _, _, hlower, hsize, hget⟩

theorem spells_of_build {lib : Library} {draft : Draft} {grammar : Grammar}
    (hbuild : lib.build draft = .ok grammar) : grammar.Spells draft := by
  obtain ⟨arena, ref, inherited, hlower, hsize, hget⟩ := exists_lowering_of_build hbuild
  have hholds := lowerDefinitions_holds Arena.holds_empty hlower
  obtain ⟨-, added, hadded, hreads⟩ := lowerDefinitions_readBack Arena.holds_empty hlower
  have hsame : SameParts grammar.rules.size arena grammar.rules := by
    intro i hi
    have hrule := Array.getElem?_eq_getElem hi
    obtain ⟨source, hsource, hresolve⟩ := hget i _ hrule
    rw [hrule, hsource, Option.map_some, Option.map_some, (Rule.resolve_eq_ok hresolve).2.1]
  have hexprs (i : Nat) : readBack? grammar.rules i = readBack? arena i := by
    apply readBack?_congr _ (Nat.lt_succ_self i)
    intro j _ part
    by_cases hj : j < grammar.rules.size
    · have hrule := Array.getElem?_eq_getElem hj
      obtain ⟨source, hsource, hresolve⟩ := hget j _ hrule
      rw [hrule, hsource, Option.bind_some, Option.bind_some, (Rule.resolve_eq_ok hresolve).2.2]
    · rw [Array.getElem?_eq_none (by omega), Array.getElem?_eq_none (by omega)]
      rfl
  have hlaid := hholds.laid.congr hsame (Nat.le_refl _)
  have hrow := hholds.row.congr hsame hholds.laid (Nat.le_of_eq hsize.symm)
  rw [← hsize] at hrow
  constructor
  · exact ruleNames_build hbuild
  · rw [hadded, List.nil_append]
    apply hreads.imp
    rintro definition entry ⟨hname, hread⟩
    exact ⟨hname, (hexprs entry.2).trans hread⟩
  · intro i rule hrule j hj
    exact hlaid.lt hrule hj
  · intro i rule hrule
    obtain ⟨first, hparts⟩ := hlaid i rule hrule
    exact hparts.pairwise
  · exact List.pairwise_map.1 hrow.pairwise
  · intro i hi
    exact existsUnique_of_inRow hrow hi
  · intro i rule hrule name
    obtain ⟨source, hsource, hresolve⟩ := hget i rule hrule
    rw [(Rule.resolve_eq_ok hresolve).1]
    exact hholds.named i source hsource name

/-- A grammar that is built from a draft spells it out: every definition is read back from its rule,
nested extensions merged with the outer members winning and references to the rule above named, and
every rule of the grammar belongs to one place of one definition. On the way there an expression adds
one rule for each node, that of the top last, and leaves the rules before alone. -/
theorem build_lays_out {lib : Library} {draft : Draft} {grammar : Grammar}
    (hbuild : lib.build draft = .ok grammar) :
    grammar.Spells draft ∧
      (∀ (rule : String) (arena later : Arena) (e : Expr) (id : Nat),
        e.lower draft.name rule arena = .ok (later, id) →
          arena.Grows e.ruleCount later ∧ id + 1 = later.size) ∧
      ∀ (inner outer : Extension) (name : String),
        (inner.merge outer).get? name = (outer.get? name).or (inner.get? name) := by
  refine ⟨spells_of_build hbuild, ?_, ?_⟩
  · intro rule arena later e id hlower
    exact Expr.lower_grows hlower
  · intro inner outer name
    exact Extension.get?_merge

/-- The brackets are read back from the last of their five rules, which no other definition has a
part in. -/
theorem build_lays_out_brackets :
    ∃ grammar, Library.build {} brackets = .ok grammar ∧ grammar.rules.size = 5 ∧
      grammar.defined = [("brackets", 4)] ∧
      readBack? grammar.rules 4 =
        some (.zeroOrMore (.seq [.literal "(", .ref "brackets", .literal ")"])) ∧
      ∀ i < 5, Contains grammar.rules 4 i := by
  have hok : (Library.build {} brackets).toOption.isSome = true := by decide +kernel
  have hsize : ((Library.build {} brackets).toOption.map (·.rules.size)) = some 5 := by
    decide +kernel
  have hdefined : ((Library.build {} brackets).toOption.map (·.defined)) =
      some [("brackets", 4)] := by decide +kernel
  cases hbuild : Library.build {} brackets with
  | error e =>
      rw [hbuild] at hok
      cases hok
  | ok grammar =>
      rw [hbuild] at hsize hdefined
      obtain ⟨hspells, -, -⟩ := build_lays_out hbuild
      have hsize5 : grammar.rules.size = 5 := Option.some.inj hsize
      have hentries : grammar.defined = [("brackets", 4)] := Option.some.inj hdefined
      have hreads := hspells.reads
      rw [hentries] at hreads
      cases hreads with
      | cons hread _ =>
          refine ⟨grammar, rfl, hsize5, hentries, hread.2, ?_⟩
          intro i hi
          obtain ⟨entry, ⟨hentry, hcontains⟩, -⟩ := hspells.owned i (by omega)
          rw [hentries, List.mem_singleton] at hentry
          rw [hentry] at hcontains
          exact hcontains

end Library

end Peg
