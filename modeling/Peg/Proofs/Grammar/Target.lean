import Peg.Proofs.Grammar.Built

/-!
# Ways to the targets of references

A reference can be kept as a way through the inclusions of its grammar and the number of a rule in
the grammar at its end. Following such a way asks for inclusions and rules by their indices. Grammars
keep such ways for their references and for their roots. Main statements: `Library.Built.follow`, the
way of every reference leads to the rule that the reference stands for, and `Library.Keeps.follow`, the
way that a grammar keeps for its root leads to the root.
-/

namespace Peg

/-- A way from a grammar: which of the inclusions to take, grammar by grammar, and the number of a rule
of the last one. -/
structure Target where
  path : List Nat
  rule : Nat
deriving DecidableEq

namespace Target

def through (t : Target) (i : Nat) : Target := { t with path := i :: t.path }

end Target

namespace Library

/-- The way to what a name stands for in a grammar. -/
def target? (lib : Library) (g : Nat) (name : String) : Option Target :=
  match lib.grammar? g with
  | none => none
  | some grammar =>
    match grammar.defined.lookup name with
    | some rule => some ⟨[], rule⟩
    | none =>
      grammar.includes.zipIdx.reverse.findSome? fun (inner, i) =>
        if inner < g then (lib.target? inner name).map (·.through i) else none
termination_by g

/-- The way to what a name stands for in the last of some grammars that knows it. -/
def targetIncluded? (lib : Library) (includes : List Nat) (name : String) : Option Target :=
  includes.zipIdx.reverse.findSome? fun (inner, i) => (lib.target? inner name).map (·.through i)

/-- The way that a rule of a grammar keeps for its reference, if it is one. -/
def bound? (lib : Library) (g : Nat) : Kind RuleRef → Option Target
  | .ref name _ => lib.target? g name
  | .inherited name _ => (lib.grammar? g).bind fun grammar => lib.targetIncluded? grammar.includes name
  | _ => none

/-- The grammar at the end of a path of inclusions, none if an index on the path is not one. -/
def follow? (lib : Library) (g : Nat) : List Nat → Option Nat
  | [] => some g
  | i :: path =>
    match (lib.grammar? g).bind fun grammar => grammar.includes[i]? with
    | none => none
    | some inner => lib.follow? inner path

/-- The rule at the end of a way, none if an index on the way is not one. -/
def resolve? (lib : Library) (g : Nat) (target : Target) : Option RuleRef := do
  let owner ← lib.follow? g target.path
  let _ ← lib.rule? ⟨owner, target.rule⟩
  some ⟨owner, target.rule⟩

/-- The way leads from the grammar to the number of the rule. -/
structure LeadsTo (lib : Library) (g : Nat) (target : Target) (r : RuleRef) : Prop where
  path : lib.follow? g target.path = some r.grammar
  rule : target.rule = r.rule

variable {lib : Library} {g : Nat} {name : String} {target : Target} {r : RuleRef}

theorem LeadsTo.here (i : Nat) : lib.LeadsTo g ⟨[], i⟩ ⟨g, i⟩ := ⟨rfl, rfl⟩

theorem LeadsTo.through {grammar : Grammar} {i inner : Nat} (hg : lib.grammar? g = some grammar)
    (hi : grammar.includes[i]? = some inner) (h : lib.LeadsTo inner target r) :
    lib.LeadsTo g (target.through i) r := by
  refine ⟨?_, h.rule⟩
  simp only [Target.through, follow?, hg, Option.bind_some, hi]
  exact h.path

theorem LeadsTo.resolve (h : lib.LeadsTo g target r) (hr : lib.Knows r) :
    lib.resolve? g target = some r := by
  obtain ⟨k, i⟩ := r
  obtain ⟨rule, hrule⟩ := Option.isSome_iff_exists.1 hr
  simp [resolve?, h.path, h.rule, hrule]

/-! ## Names -/

theorem findSome?_rel {α β γ : Type} {rel : β → γ → Prop} {xs : List α} {f : α → Option β}
    {f' : α → Option γ} (h : ∀ x ∈ xs, Option.Rel rel (f x) (f' x)) :
    Option.Rel rel (xs.findSome? f) (xs.findSome? f') := by
  induction xs with
  | nil => exact .none
  | cons x xs ih =>
      obtain ⟨hx, hxs⟩ := List.forall_mem_cons.1 h
      simp only [List.findSome?_cons]
      generalize f x = y at hx ⊢
      generalize f' x = y' at hx ⊢
      cases hx with
      | some hrel => exact .some hrel
      | none => exact ih hxs

theorem findSome?_zipIdx {γ : Type} (includes : List Nat) (f : Nat → Option γ) :
    includes.zipIdx.reverse.findSome? (fun (inner, _) => f inner) = includes.reverse.findSome? f := by
  have hunzip : includes.zipIdx.map Prod.fst = includes := List.zipIdx_map_fst 0 includes
  conv => rhs; rw [← hunzip, ← List.map_reverse, List.findSome?_map]
  rfl

theorem through_rel {grammar : Grammar} (hg : lib.grammar? g = some grammar) {inner i : Nat}
    (hi : grammar.includes[i]? = some inner)
    (h : Option.Rel (lib.LeadsTo inner) (lib.target? inner name) (lib.lookup inner name)) :
    Option.Rel (lib.LeadsTo g) ((lib.target? inner name).map (·.through i))
      (lib.lookup inner name) := by
  generalize lib.target? inner name = target at h ⊢
  generalize lib.lookup inner name = r at h ⊢
  cases h with
  | some hleads => exact .some (hleads.through hg hi)
  | none => exact .none

theorem target?_rel (lib : Library) (g : Nat) (name : String) :
    Option.Rel (lib.LeadsTo g) (lib.target? g name) (lib.lookup g name) := by
  induction g using Nat.strongRecOn with
  | ind g ih =>
      rw [target?, lookup]
      cases hg : lib.grammar? g with
      | none => exact .none
      | some grammar =>
          simp only
          cases grammar.defined.lookup name with
          | some rule => exact .some (.here rule)
          | none =>
              simp only
              rw [← findSome?_zipIdx]
              refine findSome?_rel ?_
              rintro ⟨inner, i⟩ hentry
              have hi : grammar.includes[i]? = some inner :=
                List.mk_mem_zipIdx_iff_getElem?.1 (List.mem_reverse.1 hentry)
              simp only
              split
              · next hlt => exact through_rel hg hi (ih inner hlt)
              · exact .none

theorem targetIncluded?_rel {grammar : Grammar} (hg : lib.grammar? g = some grammar)
    (name : String) :
    Option.Rel (lib.LeadsTo g) (lib.targetIncluded? grammar.includes name)
      (lib.lookupIncluded grammar.includes name) := by
  unfold targetIncluded? lookupIncluded
  rw [← findSome?_zipIdx]
  refine findSome?_rel ?_
  rintro ⟨inner, i⟩ hentry
  have hi : grammar.includes[i]? = some inner :=
    List.mk_mem_zipIdx_iff_getElem?.1 (List.mem_reverse.1 hentry)
  exact through_rel hg hi (lib.target?_rel inner name)

/-! ## References -/

/-- What the name of a reference stands for in a grammar. -/
def refers? (lib : Library) (g : Nat) : Kind RuleRef → Option RuleRef
  | .ref name _ => lib.lookup g name
  | .inherited name _ => (lib.grammar? g).bind fun grammar => lib.lookupIncluded grammar.includes name
  | _ => none

theorem bound?_rel (lib : Library) (g : Nat) (kind : Kind RuleRef) :
    Option.Rel (lib.LeadsTo g) (lib.bound? g kind) (lib.refers? g kind) := by
  cases kind with
  | ref name _ => exact lib.target?_rel g name
  | inherited name _ =>
      simp only [bound?, refers?]
      cases hg : lib.grammar? g with
      | none => exact .none
      | some grammar => exact targetIncluded?_rel hg name
  | _ => exact .none

/-- Grammars only include those before them, and every reference goes to what its name stands for. -/
structure Linked (lib : Library) : Prop where
  includes : ∀ g grammar, lib.grammar? g = some grammar → ∀ inner ∈ grammar.includes, inner < g
  references : ∀ r rule, lib.rule? r = some rule → ∀ t ∈ rule.kind.referred,
    lib.refers? r.grammar rule.kind = some t

/-! ## Adding a grammar -/

variable {grammar : Grammar} {draft : Draft}

theorem lookup_push (hg : g < lib.grammars.size) :
    (⟨lib.grammars.push grammar⟩ : Library).lookup g name = lib.lookup g name := by
  induction g using Nat.strongRecOn with
  | ind g ih =>
      have hold : (⟨lib.grammars.push grammar⟩ : Library).grammar? g = lib.grammar? g := by
        rw [grammar?_push, if_neg (by omega)]
      have hinner (inner : Nat) :
          (if inner < g then (⟨lib.grammars.push grammar⟩ : Library).lookup inner name else none) =
            if inner < g then lib.lookup inner name else none := by
        split
        · next hlt => exact ih inner hlt (by omega)
        · rfl
      rw [lookup, lookup, hold]
      simp only [hinner]

theorem findSome?_congr {α β : Type} {xs : List α} {f f' : α → Option β}
    (h : ∀ x ∈ xs, f x = f' x) : xs.findSome? f = xs.findSome? f' := by
  induction xs with
  | nil => rfl
  | cons x xs ih =>
      obtain ⟨hx, hxs⟩ := List.forall_mem_cons.1 h
      rw [List.findSome?_cons, List.findSome?_cons, hx, ih hxs]

theorem lookupIncluded_push {includes : List Nat}
    (hincludes : ∀ inner ∈ includes, inner < lib.grammars.size) :
    (⟨lib.grammars.push grammar⟩ : Library).lookupIncluded includes name =
      lib.lookupIncluded includes name :=
  findSome?_congr fun inner hinner => lookup_push (hincludes inner (List.mem_reverse.1 hinner))

theorem lookup_push_size (hincludes : ∀ inner ∈ grammar.includes, inner < lib.grammars.size)
    (hdraft : grammar.includes = draft.includes) :
    (⟨lib.grammars.push grammar⟩ : Library).lookup lib.grammars.size name =
      lib.lookupDraft draft grammar.defined name := by
  rw [lookup, grammar?_push, if_pos rfl]
  simp only [lookupDraft]
  cases grammar.defined.lookup name with
  | some rule => rfl
  | none =>
      rw [← hdraft]
      refine findSome?_congr fun inner hinner => ?_
      have hlt := hincludes inner (List.mem_reverse.1 hinner)
      exact (if_pos hlt).trans (lookup_push hlt)

theorem LeadsTo.push (h : lib.LeadsTo g target r) :
    (⟨lib.grammars.push grammar⟩ : Library).LeadsTo g target r := by
  obtain ⟨hpath, hrule⟩ := h
  refine ⟨?_, hrule⟩
  generalize target.path = path at hpath ⊢
  induction path generalizing g with
  | nil => exact hpath
  | cons i path ih =>
      rw [follow?] at hpath ⊢
      split at hpath
      · cases hpath
      · next inner hinner =>
          obtain ⟨outer, houter, hi⟩ := Option.bind_eq_some_iff.1 hinner
          have hlt : g < lib.grammars.size := (Array.getElem?_eq_some_iff.1 houter).1
          rw [grammar?_push, if_neg (by omega), houter, Option.bind_some, hi]
          exact ih hpath

/-- What the name of a reference stands for in a grammar about to be added. -/
def draftRefers? (lib : Library) (draft : Draft) (defined : List (String × Nat)) :
    Kind RuleRef → Option RuleRef
  | .ref name _ => lib.lookupDraft draft defined name
  | .inherited name _ => lib.lookupIncluded draft.includes name
  | _ => none

theorem refers?_push_size (hincludes : ∀ inner ∈ grammar.includes, inner < lib.grammars.size)
    (hdraft : grammar.includes = draft.includes) (kind : Kind RuleRef) :
    (⟨lib.grammars.push grammar⟩ : Library).refers? lib.grammars.size kind =
      lib.draftRefers? draft grammar.defined kind := by
  cases kind with
  | ref name _ => exact lookup_push_size hincludes hdraft
  | inherited name _ =>
      simp only [refers?, draftRefers?]
      rw [grammar?_push, if_pos rfl, Option.bind_some, lookupIncluded_push hincludes, hdraft]
  | _ => rfl

theorem Linked.refers?_push (h : lib.Linked) (hg : g < lib.grammars.size) (kind : Kind RuleRef) :
    (⟨lib.grammars.push grammar⟩ : Library).refers? g kind = lib.refers? g kind := by
  cases kind with
  | ref name _ => exact lookup_push hg
  | inherited name _ =>
      simp only [refers?]
      rw [grammar?_push, if_neg (by omega)]
      cases hold : lib.grammar? g with
      | none => rfl
      | some outer =>
          exact lookupIncluded_push fun inner hinner =>
            Nat.lt_trans (h.includes g outer hold inner hinner) hg
  | _ => rfl

end Library

theorem Kind.resolve_referred {ref inherited : String → String → Except GrammarError RuleRef}
    {kind : Kind String} {kind' : Kind RuleRef} (h : kind.resolve ref inherited = .ok kind')
    {t : RuleRef} (ht : t ∈ kind'.referred) :
    ∃ name rule, (kind' = .ref name t ∧ ref name rule = .ok t) ∨
      (kind' = .inherited name t ∧ inherited name rule = .ok t) := by
  cases kind with
  | ref name rule =>
      simp only [Kind.resolve] at h
      cases htarget : ref name rule with
      | error e => simp [htarget, Except.map] at h
      | ok target =>
          simp only [htarget, Except.map, Except.ok.injEq] at h
          subst h
          cases ht
          exact ⟨name, rule, .inl ⟨rfl, htarget⟩⟩
  | inherited name rule =>
      simp only [Kind.resolve] at h
      cases htarget : inherited name rule with
      | error e => simp [htarget, Except.map] at h
      | ok target =>
          simp only [htarget, Except.map, Except.ok.injEq] at h
          subst h
          cases ht
          exact ⟨name, rule, .inr ⟨rfl, htarget⟩⟩
  | _ =>
      cases h
      cases ht

namespace Library

variable {lib : Library} {g : Nat} {grammar : Grammar} {draft : Draft}

theorem build_references (hbuild : lib.build draft = .ok grammar) :
    grammar.includes = draft.includes ∧
    (∀ (i : Nat) (rule : Rule RuleRef), grammar.rules[i]? = some rule →
      ∀ t ∈ rule.kind.referred, lib.draftRefers? draft grammar.defined rule.kind = some t) ∧
    lib.rootOf draft grammar.defined = .ok grammar.root := by
  unfold Library.build at hbuild
  obtain ⟨⟨arena, defined⟩, -, hrest⟩ := exists_of_bind_eq_ok hbuild
  obtain ⟨rules, hrules, hrest⟩ := exists_of_bind_eq_ok hrest
  obtain ⟨root, hroot, hok⟩ := exists_of_bind_eq_ok hrest
  cases hok
  obtain ⟨-, hget⟩ := getElem?_of_array_mapM_eq_ok hrules
  refine ⟨rfl, fun i rule hi t ht => ?_, hroot⟩
  obtain ⟨source, -, hresolve⟩ := hget i rule hi
  obtain ⟨name, owner, ⟨hkind, htarget⟩ | ⟨hkind, htarget⟩⟩ :=
    Kind.resolve_referred (Rule.resolve_kind hresolve) ht
  · rw [hkind]
    split at htarget
    · next target hlookup =>
        cases htarget
        exact hlookup
    · cases htarget
  · rw [hkind]
    split at htarget
    · next target hlookup =>
        cases htarget
        exact hlookup
    · cases htarget

theorem Linked.push (h : lib.Linked) (hdraft : ∀ inner ∈ draft.includes, inner < lib.grammars.size)
    (hbuild : lib.build draft = .ok grammar) :
    (⟨lib.grammars.push grammar⟩ : Library).Linked := by
  obtain ⟨hincludes, hreferences, -⟩ := build_references hbuild
  rw [← hincludes] at hdraft
  constructor
  · intro g outer hg
    rw [grammar?_push] at hg
    split at hg
    · next hnew =>
        cases hg
        rw [hnew]
        exact hdraft
    · exact h.includes g outer hg
  · intro r rule hrule t ht
    unfold rule? at hrule
    rw [grammar?_push] at hrule
    split at hrule
    · next hnew =>
        rw [hnew, refers?_push_size hdraft hincludes]
        exact hreferences r.rule rule hrule t ht
    · obtain ⟨old, hold, -⟩ := Option.bind_eq_some_iff.1 hrule
      have hlt : r.grammar < lib.grammars.size := (Array.getElem?_eq_some_iff.1 hold).1
      rw [h.refers?_push hlt]
      exact h.references r rule hrule t ht

theorem Built.linked (h : lib.Built) : lib.Linked := by
  induction h with
  | empty =>
      constructor
      · intro g grammar hg
        simp [grammar?] at hg
      · intro r rule hrule
        simp [rule?, grammar?] at hrule
  | @add lib later draft _ hdraft hadd ih =>
      obtain ⟨grammar, hbuild, rfl⟩ := exists_build_of_add hadd
      exact ih.push hdraft hbuild

/-- Every reference of a rule is bound to a way, and the way leads to the rule that it stands for. -/
theorem Built.follow (h : lib.Built) {r : RuleRef} {rule : Rule RuleRef}
    (hrule : lib.rule? r = some rule) {t : RuleRef} (ht : t ∈ rule.kind.referred) :
    (lib.bound? r.grammar rule.kind).bind (lib.resolve? r.grammar) = some t := by
  have hknows : lib.Knows t :=
    h.closed.targets r rule hrule t (List.mem_append_right _ (Option.mem_toList.2 ht))
  have hrel := lib.bound?_rel r.grammar rule.kind
  rw [h.linked.references r rule hrule t ht] at hrel
  generalize lib.bound? r.grammar rule.kind = target at hrel ⊢
  cases hrel with
  | some hleads => exact hleads.resolve hknows

/-! ## Roots -/

/-- The way to its root that a grammar keeps, given those that the grammars before it keep: to what a
name stands for if the root was given by one, else to the first rule that the grammar defines itself,
else through the last inclusion. -/
def rootTarget? (lib : Library) (kept : Array Target) (g : Nat) (named : Option String) :
    Option Target :=
  match named with
  | some name => lib.target? g name
  | none =>
    match lib.grammar? g with
    | none => none
    | some grammar =>
      match grammar.defined with
      | (_, rule) :: _ => some ⟨[], rule⟩
      | [] => do
        let inner ← grammar.includes.getLast?
        (kept[inner]?).map (·.through (grammar.includes.length - 1))

/-- The library was built, and these are the ways to their roots that its grammars keep. -/
inductive Keeps : Library → Array Target → Prop
  | empty : Keeps {} #[]
  | add {lib later : Library} {kept : Array Target} {draft : Draft} {target : Target} :
      Keeps lib kept → (∀ inner ∈ draft.includes, inner < lib.grammars.size) →
      lib.add draft = .ok later →
      later.rootTarget? kept lib.grammars.size draft.root = some target →
      Keeps later (kept.push target)

theorem Keeps.built {kept : Array Target} (h : lib.Keeps kept) : lib.Built := by
  induction h with
  | empty => exact .empty
  | add _ hincludes hadd _ ih => exact .add ih hincludes hadd

/-- Every grammar keeps a way to its root. -/
structure Rooted (lib : Library) (kept : Array Target) : Prop where
  size : kept.size = lib.grammars.size
  leads : ∀ g grammar, lib.grammar? g = some grammar →
    ∃ target, kept[g]? = some target ∧ lib.LeadsTo g target grammar.root

namespace Rooted

variable {kept : Array Target}

theorem empty : Rooted {} #[] where
  size := rfl
  leads g grammar hg := by simp [grammar?] at hg

theorem rootTarget? (h : lib.Rooted kept)
    (hincludes : ∀ inner ∈ grammar.includes, inner < lib.grammars.size)
    (hdraft : grammar.includes = draft.includes)
    (hroot : lib.rootOf draft grammar.defined = .ok grammar.root) :
    ∃ target, (⟨lib.grammars.push grammar⟩ : Library).rootTarget? kept lib.grammars.size
        draft.root = some target ∧
      (⟨lib.grammars.push grammar⟩ : Library).LeadsTo lib.grammars.size target grammar.root := by
  have hgrammar : (⟨lib.grammars.push grammar⟩ : Library).grammar? lib.grammars.size =
      some grammar := by rw [grammar?_push, if_pos rfl]
  unfold Library.rootOf at hroot
  unfold Library.rootTarget?
  cases hnamed : draft.root with
  | some name =>
      rw [hnamed] at hroot
      have hrel := (⟨lib.grammars.push grammar⟩ : Library).target?_rel lib.grammars.size name
      rw [lookup_push_size hincludes hdraft] at hrel
      simp only at hroot ⊢
      generalize lib.lookupDraft draft grammar.defined name = found at hroot hrel
      generalize (⟨lib.grammars.push grammar⟩ : Library).target? lib.grammars.size name =
        target at hrel ⊢
      cases hrel with
      | none => cases hroot
      | some hleads =>
          cases hroot
          exact ⟨_, rfl, hleads⟩
  | none =>
      rw [hnamed] at hroot
      simp only [hgrammar] at hroot ⊢
      cases hdefined : grammar.defined with
      | cons entry _ =>
          rw [hdefined] at hroot
          rw [← Except.ok.inj hroot]
          exact ⟨_, rfl, .here _⟩
      | nil =>
          rw [hdefined, ← hdraft] at hroot
          simp only at hroot ⊢
          split at hroot
          · next inner hinner =>
              obtain ⟨k, hk, hinner⟩ := Option.bind_eq_some_iff.1 hinner
              obtain ⟨target, htarget, hleads⟩ := h.leads k inner hinner
              rw [Except.ok.inj hroot] at hleads
              rw [hk, Option.bind_eq_bind, Option.bind_some, htarget]
              rw [List.getLast?_eq_getElem?] at hk
              exact ⟨_, rfl, hleads.push.through hgrammar hk⟩
          · cases hroot

theorem push (h : lib.Rooted kept) {target : Target}
    (hleads : (⟨lib.grammars.push grammar⟩ : Library).LeadsTo lib.grammars.size target
      grammar.root) :
    (⟨lib.grammars.push grammar⟩ : Library).Rooted (kept.push target) where
  size := by simp [h.size]
  leads g outer hg := by
    rw [grammar?_push] at hg
    rw [Array.getElem?_push, h.size]
    split at hg
    · next hnew =>
        cases hg
        rw [if_pos hnew]
        exact ⟨target, rfl, hnew ▸ hleads⟩
    · next hold =>
        obtain ⟨old, hkept, hleads⟩ := h.leads g outer hg
        rw [if_neg hold]
        exact ⟨old, hkept, hleads.push⟩

end Rooted

theorem Keeps.rooted {kept : Array Target} (h : lib.Keeps kept) : lib.Rooted kept := by
  induction h with
  | empty => exact .empty
  | @add lib later kept draft target _ hincludes hadd htarget ih =>
      obtain ⟨grammar, hbuild, rfl⟩ := exists_build_of_add hadd
      obtain ⟨hdraft, -, hroot⟩ := build_references hbuild
      rw [← hdraft] at hincludes
      obtain ⟨target', htarget', hleads⟩ := ih.rootTarget? hincludes hdraft hroot
      cases htarget.symm.trans htarget'
      exact ih.push hleads

theorem Built.exists_keeps (h : lib.Built) : ∃ kept, lib.Keeps kept := by
  induction h with
  | empty => exact ⟨#[], .empty⟩
  | @add lib later draft _ hincludes hadd ih =>
      obtain ⟨kept, hkeeps⟩ := ih
      have hadd' := hadd
      obtain ⟨grammar, hbuild, rfl⟩ := exists_build_of_add hadd
      obtain ⟨hdraft, -, hroot⟩ := build_references hbuild
      have hbefore := hincludes
      rw [← hdraft] at hbefore
      obtain ⟨target, htarget, -⟩ := hkeeps.rooted.rootTarget? hbefore hdraft hroot
      exact ⟨kept.push target, .add hkeeps hincludes hadd' htarget⟩

/-- The way that a grammar keeps for its root leads to the root. -/
theorem Keeps.follow {kept : Array Target} (h : lib.Keeps kept)
    (hg : lib.grammar? g = some grammar) :
    (kept[g]?).bind (lib.resolve? g) = some grammar.root := by
  obtain ⟨target, htarget, hleads⟩ := h.rooted.leads g grammar hg
  rw [htarget, Option.bind_some]
  exact hleads.resolve (h.built.closed.root g grammar hg)

end Library

end Peg
