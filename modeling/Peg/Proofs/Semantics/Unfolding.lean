import Peg.Proofs.Semantics.Laws

/-!
# Repetitions and what they unfold to

A repetition stands for as many copies of its expression in a row as there have to be, followed by
options inside each other, as many as there may be more, or by any number of further rounds. A loop
ends early where a round matches nothing; there the copies and options that are left match nothing
as well. Main statement: `Site.length_eq_of_unfolding`, in every place of a grammar the one may be
written for the other.
-/

namespace Peg

namespace Expr

/-- Options inside each other: the expression as often as it matches, but so many times at most. -/
def nestedOptions (e : Expr) : Nat → List Expr
  | 0 => []
  | n + 1 => [.opt (.seq (e :: e.nestedOptions n))]

/-- What comes behind the rounds that there have to be. -/
def furtherRounds (e : Expr) (least : Nat) : Option Nat → List Expr
  | some most => e.nestedOptions (most - least)
  | none => [.zeroOrMore e]

/-- What a repetition is short for. -/
def unfolding (e : Expr) (least : Nat) (most : Option Nat) : Expr :=
  .seq (List.replicate least e ++ e.furtherRounds least most)

end Expr

/-! ## Lengths of rows -/

namespace Library

variable {lib : Library}

/-- The rules in a row match a text of the length at the place, or one of them fails. -/
def GivesAll (lib : Library) (rs : List RuleRef) (p : Place) (length : Option Nat) : Prop :=
  ∃ o e, Judgement.All lib.Yields rs p o e ∧ o.map Derivation.totalLength = length

variable {r : RuleRef} {rs : List RuleRef} {p : Place} {m n : Option Nat}

namespace GivesAll

theorem nil (p : Place) : lib.GivesAll [] p (some 0) := ⟨_, _, .nil, rfl⟩

theorem fail (h : lib.Gives r p none) (rs : List RuleRef) : lib.GivesAll (r :: rs) p none := by
  obtain ⟨o, e, hout, hnone⟩ := h
  obtain rfl : o = none := Option.map_eq_none_iff.1 hnone
  exact ⟨none, e, .fail hout, rfl⟩

theorem cons {k : Nat} (h : lib.Gives r p (some k)) (hrest : lib.GivesAll rs (p.advance k) n) :
    lib.GivesAll (r :: rs) p (n.map (k + ·)) := by
  obtain ⟨o, e, hout, hlength⟩ := h
  obtain ⟨d, rfl, rfl⟩ := Option.map_eq_some_iff.1 hlength
  obtain ⟨os, e', hall, rfl⟩ := hrest
  refine ⟨_, _, .cons hout hall, ?_⟩
  rw [Option.map_map, Option.map_map]
  rfl

theorem append {nothing : List RuleRef} (h : ∀ r ∈ nothing, lib.Gives r p (some 0))
    (hrest : lib.GivesAll rs p (some 0)) : lib.GivesAll (nothing ++ rs) p (some 0) := by
  induction nothing with
  | nil => exact hrest
  | cons r nothing ih =>
      obtain ⟨hr, hnothing⟩ := List.forall_mem_cons.1 h
      refine cons (n := some 0) hr ?_
      rw [Place.advance_zero]
      exact ih hnothing

end GivesAll

variable {rule : Rule RuleRef} (hrule : lib.rule? r = some rule)

include hrule

theorem gives_sequence {parts : List Nat} (hkind : rule.kind = .sequence parts)
    (h : lib.GivesAll (parts.map r.sibling) p n) : lib.Gives r p n := by
  obtain ⟨o, e, hall, rfl⟩ := h
  have hgives := gives_of_performed hrule hkind (.sequence hall)
  rw [Option.map_map] at hgives
  exact hgives

theorem gives_option {j : Nat} (hkind : rule.kind = .rep j 0 (some 1))
    (h : lib.Gives (r.sibling j) p n) : lib.Gives r p (n.or (some 0)) := by
  have hmost : some 1 ≠ some 0 := by simp
  obtain ⟨o, e, hout, rfl⟩ := h
  cases o with
  | none => exact gives_rounds hrule hkind (.stop hmost hout)
  | some d =>
      by_cases hd : d.length = 0
      · have hgives := gives_rounds hrule hkind (.empty hmost hout hd)
        simpa [Derivation.totalLength] using hgives
      · have hgives := gives_rounds hrule hkind (.more hmost hout hd (.full rfl))
        simpa [Derivation.totalLength] using hgives

end Library

/-! ## Rounds of a loop and rules in a row -/

namespace Judgement

/-- One rule gives in a library what the judgement says of another one. -/
def Gives (R : Judgement) (lib : Library) (r r' : RuleRef) : Prop :=
  ∀ ⦃p o e⦄, R r p o e → lib.Gives r' p (o.map Derivation.length)

variable {R : Judgement} {lib : Library} {r : RuleRef} {least : Nat} {most : Option Nat}

theorem Repeated.isSome_of_le {count : Nat} {p : Place} {o : Option (List Derivation)} {e : Extent}
    (h : R.Repeated count r least most p o e) (hcount : least ≤ count) : o.isSome := by
  induction h with
  | full _ | stop _ _ => simp [hcount]
  | empty _ _ _ => rfl
  | more _ _ _ _ ih =>
      rw [Option.isSome_map]
      exact ih (by omega)

/-- The rounds that there have to be are copies of the rule in a row, if `further` are rules for the
rounds that may follow. A round that matches nothing ends the loop, but not the row. -/
theorem Repeated.givesAll {further : List RuleRef} (hmost : ∀ n ∈ most, least ≤ n)
    (hfurther : ∀ ⦃p o e⦄, R.Repeated least r least most p o e →
      lib.GivesAll further p (o.map Derivation.totalLength))
    (hnothing : ∀ ⦃p d e⦄, R r p (some d) e → d.length = 0 → lib.GivesAll further p (some 0))
    {count : Nat} {p : Place} {o : Option (List Derivation)} {e : Extent}
    (h : R.Repeated count r least most p o e) {copies : List RuleRef}
    (hcopies : ∀ r' ∈ copies, R.Gives lib r r') (hcount : count + copies.length = least) :
    lib.GivesAll (copies ++ further) p (o.map Derivation.totalLength) := by
  induction copies generalizing count p o e with
  | nil =>
      obtain rfl : count = least := hcount
      exact hfurther h
  | cons r' copies ih =>
      obtain ⟨hr', hrest⟩ := List.forall_mem_cons.1 hcopies
      rw [List.length_cons] at hcount
      have htoo_few : ¬ least ≤ count := by omega
      cases h with
      | full hfull =>
          have hle := hmost count hfull
          omega
      | stop _ hr =>
          rw [if_neg htoo_few]
          exact .fail (hr' hr) _
      | @empty _ _ _ _ _ d _ _ hr hd =>
          have hall : ∀ r'' ∈ r' :: copies, lib.Gives r'' p (some 0) := by
            intro r'' hmem
            have hgives := hcopies r'' hmem hr
            rwa [Option.map_some, hd] at hgives
          have hlength : (some [d]).map Derivation.totalLength = some 0 := by
            simp [Derivation.totalLength, hd]
          rw [hlength]
          exact .append hall (hnothing hr hd)
      | more _ hr _ hmore =>
          have hgives := Library.GivesAll.cons (hr' hr) (ih hmore hrest (by omega))
          rw [Option.map_map] at hgives ⊢
          exact hgives

theorem Repeated.exists_rounds {r' : RuleRef} (hr' : R.Gives lib r r') {count : Nat} {p : Place}
    {o : Option (List Derivation)} {e : Extent} (h : R.Repeated count r least none p o e)
    (hcount : least ≤ count) (before : Nat) :
    ∃ o' e', Judgement.Repeated lib.Yields before r' 0 none p o' e' ∧
      o'.map Derivation.totalLength = o.map Derivation.totalLength := by
  obtain ⟨most, hmost⟩ : ∃ most : Option Nat, most = none := ⟨none, rfl⟩
  rw [← hmost] at h
  induction h generalizing before with
  | full hfull =>
      rw [hmost] at hfull
      cases hfull
  | stop _ hr =>
      obtain ⟨o', e', hout, hlength⟩ := hr' hr
      obtain rfl : o' = none := Option.map_eq_none_iff.1 hlength
      refine ⟨_, e', .stop nofun hout, ?_⟩
      rw [if_pos hcount, if_pos (Nat.zero_le before)]
  | empty _ hr hd =>
      obtain ⟨o', e', hout, hlength⟩ := hr' hr
      obtain ⟨d', rfl, hd'⟩ := Option.map_eq_some_iff.1 hlength
      refine ⟨_, e', .empty nofun hout (hd'.trans hd), ?_⟩
      simp [Derivation.totalLength, hd']
  | more _ hr hd _ ih =>
      obtain ⟨o', e', hout, hlength⟩ := hr' hr
      obtain ⟨d', rfl, hd'⟩ := Option.map_eq_some_iff.1 hlength
      obtain ⟨os, e'', hrounds, htotal⟩ := ih hr' (by omega) (before + 1) hmost
      rw [← hd'] at hd hrounds
      refine ⟨_, _, .more nofun hout hd hrounds, ?_⟩
      rw [Option.map_map, Option.map_map]
      cases os with
      | none =>
          rw [Option.map_none, eq_comm, Option.map_eq_none_iff] at htotal
          rw [htotal]
          rfl
      | some ds =>
          obtain ⟨ds', hds', heq⟩ := Option.map_eq_some_iff.1 htotal.symm
          rw [hds']
          simp [Derivation.totalLength, hd', heq]

end Judgement

/-! ## Rules that implement an unfolding -/

namespace Library.ImplementsAll

variable {lib : Library} {g : Nat} {owner : String} {is : List Nat} {e : Expr} {es fs : List Expr}

theorem exists_append (h : lib.ImplementsAll g owner is (es ++ fs)) :
    ∃ front back, is = front ++ back ∧ lib.ImplementsAll g owner front es ∧
      lib.ImplementsAll g owner back fs := by
  induction es generalizing is with
  | nil => exact ⟨[], is, rfl, .nil, h⟩
  | cons e es ih =>
      cases h with
      | cons he hes =>
          obtain ⟨front, back, rfl, hfront, hback⟩ := ih hes
          exact ⟨_ :: front, back, rfl, .cons he hfront, hback⟩

theorem of_replicate {n : Nat} (h : lib.ImplementsAll g owner is (List.replicate n e)) :
    is.length = n ∧ ∀ i ∈ is, lib.Implements g owner i e none e.attached := by
  induction n generalizing is with
  | zero =>
      cases h
      exact ⟨rfl, nofun⟩
  | succ n ih =>
      cases h with
      | cons he hes =>
          obtain ⟨hlength, hcopies⟩ := ih hes
          exact ⟨congrArg Nat.succ hlength, List.forall_mem_cons.2 ⟨he, hcopies⟩⟩

theorem exists_option (h : lib.ImplementsAll g owner is [.opt (.seq (e :: es))]) :
    ∃ i j parts, is = [i] ∧ lib.Implements g owner j e none e.attached ∧
      lib.ImplementsAll g owner parts es ∧
      ∀ {p n}, lib.GivesAll (⟨g, j⟩ :: parts.map (RuleRef.mk g)) p n →
        lib.GivesAll [⟨g, i⟩] p (n.or (some 0)) := by
  cases h with
  | cons hopt hnil =>
      cases hnil
      obtain ⟨_, hrule, hseq⟩ := hopt.exists_of_rep
      cases hseq with
      | seq hrule' hparts =>
          cases hparts with
          | @cons j parts _ _ he hes =>
              refine ⟨_, j, parts, rfl, he, hes, fun {p n} hrow => ?_⟩
              have hgives := gives_option hrule rfl (gives_sequence hrule' rfl hrow)
              obtain ⟨k, hk⟩ : ∃ k, n.or (some 0) = some k := by cases n <;> exact ⟨_, rfl⟩
              rw [hk] at hgives ⊢
              exact .cons (n := some 0) hgives (.nil _)

end Library.ImplementsAll

namespace Judgement

variable {R : Judgement} {lib : Library} {g j least : Nat} {owner : String} {e : Expr}
  (hR : ∀ ⦃i⦄, lib.Implements g owner i e none e.attached → R.Gives lib ⟨g, j⟩ ⟨g, i⟩)

include hR

theorem givesAll_nestedOptions_zero {n : Nat} {is : List Nat}
    (his : lib.ImplementsAll g owner is (e.nestedOptions n)) {p : Place} {d : Derivation}
    {extent : Extent} (hr : R ⟨g, j⟩ p (some d) extent) (hd : d.length = 0) :
    lib.GivesAll (is.map (RuleRef.mk g)) p (some 0) := by
  induction n generalizing is with
  | zero =>
      cases his
      exact .nil p
  | succ n ih =>
      obtain ⟨i, k, parts, rfl, hk, hparts, hoption⟩ := his.exists_option
      have hgives := hR hk hr
      rw [Option.map_some, hd] at hgives
      have hrow := ih hparts
      rw [← p.advance_zero] at hrow
      exact hoption (.cons (n := some 0) hgives hrow)

theorem Repeated.givesAll_nestedOptions {most count n : Nat} {p : Place}
    {o : Option (List Derivation)} {extent : Extent}
    (h : R.Repeated count ⟨g, j⟩ least (some most) p o extent) (hcount : least ≤ count)
    (hmost : count + n = most) {is : List Nat}
    (his : lib.ImplementsAll g owner is (e.nestedOptions n)) :
    lib.GivesAll (is.map (RuleRef.mk g)) p (o.map Derivation.totalLength) := by
  induction n generalizing count p o extent is with
  | zero =>
      obtain rfl : count = most := hmost
      cases his
      cases h with
      | full _ =>
          rw [if_pos hcount]
          exact .nil p
      | stop hfull _ | empty hfull _ _ | more hfull _ _ _ => exact absurd rfl hfull
  | succ n ih =>
      obtain ⟨i, k, parts, rfl, hk, hparts, hoption⟩ := his.exists_option
      cases h with
      | full hfull =>
          cases hfull
          omega
      | stop _ hr =>
          rw [if_pos hcount]
          exact hoption (.fail (hR hk hr) _)
      | @empty _ _ _ _ _ d _ _ hr hd =>
          have hgives := hR hk hr
          have hrow := givesAll_nestedOptions_zero hR hparts hr hd
          rw [Option.map_some, hd] at hgives
          rw [← p.advance_zero] at hrow
          have hlength : (some [d]).map Derivation.totalLength = some 0 := by
            simp [Derivation.totalLength, hd]
          rw [hlength]
          exact hoption (.cons (n := some 0) hgives hrow)
      | @more _ _ _ _ _ d _ _ _ _ hr _ hrest =>
          -- there are enough rounds already, so those that follow cannot fail
          obtain ⟨ds, rfl⟩ := Option.isSome_iff_exists.1 (hrest.isSome_of_le (by omega))
          have hrow := ih hrest (by omega) (by omega) hparts
          have hgives := hoption (.cons (hR hk hr) hrow)
          simpa [Derivation.totalLength] using hgives

theorem givesAll_furtherRounds_zero {most : Option Nat} {is : List Nat}
    (his : lib.ImplementsAll g owner is (e.furtherRounds least most)) {p : Place} {d : Derivation}
    {extent : Extent} (hr : R ⟨g, j⟩ p (some d) extent) (hd : d.length = 0) :
    lib.GivesAll (is.map (RuleRef.mk g)) p (some 0) := by
  cases most with
  | some most => exact givesAll_nestedOptions_zero hR his hr hd
  | none =>
      cases his with
      | cons hrep hnil =>
          cases hnil
          obtain ⟨k, hrule, hk⟩ := hrep.exists_of_rep
          obtain ⟨o, e', hout, hlength⟩ := hR hk hr
          obtain ⟨d', rfl, hd'⟩ := Option.map_eq_some_iff.1 hlength
          have hgives := Library.gives_rounds hrule rfl (.empty nofun hout (hd'.trans hd))
          simp only [Option.map_some, Derivation.totalLength, hd', hd] at hgives
          exact .cons (n := some 0) hgives (.nil _)

theorem Repeated.givesAll_furtherRounds {most : Option Nat} (hmost : ∀ n ∈ most, least ≤ n)
    {is : List Nat} (his : lib.ImplementsAll g owner is (e.furtherRounds least most)) {p : Place}
    {o : Option (List Derivation)} {extent : Extent}
    (h : R.Repeated least ⟨g, j⟩ least most p o extent) :
    lib.GivesAll (is.map (RuleRef.mk g)) p (o.map Derivation.totalLength) := by
  cases most with
  | some most =>
      have hle := hmost most rfl
      exact h.givesAll_nestedOptions hR (Nat.le_refl least) (by omega) his
  | none =>
      cases his with
      | cons hrep hnil =>
          cases hnil
          obtain ⟨k, hrule, hk⟩ := hrep.exists_of_rep
          obtain ⟨o', e', hrounds, htotal⟩ := h.exists_rounds (hR hk) (Nat.le_refl least) 0
          have hgives := Library.gives_rounds hrule rfl hrounds
          rw [htotal] at hgives
          obtain ⟨ds, rfl⟩ := Option.isSome_iff_exists.1 (h.isSome_of_le (Nat.le_refl least))
          exact .cons (n := some 0) hgives (.nil _)

end Judgement

namespace Library.ImplementsAll

variable {lib : Library} {g least : Nat} {owner : String} {is : List Nat} {e : Expr} {most : Option Nat}

theorem exists_of_unfolding (hbounds : (Expr.rep e least most).Sound)
    (h : lib.ImplementsAll g owner is (List.replicate least e ++ e.furtherRounds least most)) :
    ∃ j, lib.Implements g owner j e none e.attached := by
  obtain ⟨front, back, rfl, hfront, hback⟩ := h.exists_append
  obtain ⟨hlength, hcopies⟩ := hfront.of_replicate
  cases front with
  | cons j _ => exact ⟨j, hcopies j List.mem_cons_self⟩
  | nil =>
      obtain rfl : 0 = least := hlength
      cases most with
      | none =>
          cases hback with
          | cons hrep _ =>
              obtain ⟨j, -, hj⟩ := hrep.exists_of_rep
              exact ⟨j, hj⟩
      | some most =>
          obtain ⟨n, rfl⟩ := Nat.exists_eq_add_of_le' hbounds.1
          obtain ⟨_, j, _, -, hj, -, -⟩ := hback.exists_option
          exact ⟨j, hj⟩

end Library.ImplementsAll

namespace Expr

variable {e : Expr} {least : Nat} {most : Option Nat}

theorem sound_opt (e : Expr) : (opt e).Sound := ⟨Nat.le_refl 1, Nat.zero_le 1⟩

theorem sound_zeroOrMore (e : Expr) : (zeroOrMore e).Sound := trivial

/-! ## Faults -/

section Throughout

variable {P : Expr → Prop} (hrep : ∀ e least most, (rep e least most).Sound → P (.rep e least most))

include hrep

theorem throughout_rep_iff (hbounds : (rep e least most).Sound) :
    (rep e least most).Throughout P ↔ e.Throughout P := by
  have hnode : (rep e least most).IsNode := nofun
  exact throughout_single_iff hnode rfl (hrep e least most hbounds)

variable (hrow : ∀ e es, P (.seq (e :: es)))

include hrow

omit hrep in
theorem throughout_row_iff {es : List Expr} :
    (seq (e :: es)).Throughout P ↔ ∀ part ∈ e :: es, part.Throughout P := by
  have hnode : (seq (e :: es)).IsNode := nofun
  rw [throughout_node_iff hnode, and_iff_right (hrow e es)]
  rfl

theorem throughout_option_iff {es : List Expr} :
    (opt (.seq (e :: es))).Throughout P ↔ ∀ part ∈ e :: es, part.Throughout P :=
  (throughout_rep_iff hrep (sound_opt _)).trans (throughout_row_iff hrow)

theorem throughout_nestedOptions (he : e.Throughout P) (n : Nat) :
    ∀ part ∈ e.nestedOptions n, part.Throughout P := by
  induction n with
  | zero => nofun
  | succ n ih =>
      rw [nestedOptions, List.forall_mem_singleton, throughout_option_iff hrep hrow]
      exact List.forall_mem_cons.2 ⟨he, ih⟩

theorem throughout_furtherRounds (he : e.Throughout P) :
    ∀ part ∈ e.furtherRounds least most, part.Throughout P := by
  cases most with
  | some most => exact throughout_nestedOptions hrep hrow he _
  | none => exact List.forall_mem_singleton.2 ((throughout_rep_iff hrep (sound_zeroOrMore e)).2 he)

variable (hbounds : (rep e least most).Sound)

include hbounds

theorem exists_first_part : ∃ first rest,
    List.replicate least e ++ e.furtherRounds least most = first :: rest ∧
      (first.Throughout P → e.Throughout P) := by
  cases least with
  | succ least => exact ⟨e, _, rfl, id⟩
  | zero =>
      cases most with
      | none => exact ⟨zeroOrMore e, [], rfl, (throughout_rep_iff hrep (sound_zeroOrMore e)).1⟩
      | some most =>
          obtain ⟨n, rfl⟩ := Nat.exists_eq_add_of_le' hbounds.1
          refine ⟨_, [], rfl, fun h => ?_⟩
          exact (throughout_option_iff hrep hrow).1 h e List.mem_cons_self

theorem throughout_unfolding_iff :
    (rep e least most).Throughout P ↔ (e.unfolding least most).Throughout P := by
  obtain ⟨first, rest, hparts, hfirst⟩ := exists_first_part hrep hrow hbounds
  rw [throughout_rep_iff hrep hbounds, unfolding, hparts, throughout_row_iff hrow, ← hparts]
  constructor
  · intro he part hpart
    rcases List.mem_append.1 hpart with hcopy | hfurther
    · rwa [List.eq_of_mem_replicate hcopy]
    · exact throughout_furtherRounds hrep hrow he part hfurther
  · intro h
    rw [hparts] at h
    exact hfirst (h first List.mem_cons_self)

end Throughout

variable (hbounds : (rep e least most).Sound)

include hbounds

theorem asFaultless_unfolding : (rep e least most).AsFaultless (e.unfolding least most) where
  sound := throughout_unfolding_iff (fun _ _ _ h => h) (fun _ _ => List.cons_ne_nil _ _) hbounds
  resolved _ _ _ := throughout_unfolding_iff (fun _ _ _ _ => trivial) (fun _ _ => trivial) hbounds

/-! ## In every place -/

theorem le_of_sound_rep : ∀ n ∈ most, least ≤ n := by
  intro n hn
  obtain rfl : most = some n := hn
  exact hbounds.2

theorem unfolding_standsFor : (e.unfolding least most).StandsFor (.rep e least most) where
  parts := by
    intro lib lib' g owner i i' name x x' rule h h' hrule j hj
    obtain ⟨k, hfound, hbody⟩ := h.exists_of_rep
    cases hfound.symm.trans hrule
    rw [List.mem_singleton.1 hj]
    cases h' with
    | seq _ hparts =>
        obtain ⟨k', hbody'⟩ := hparts.exists_of_unfolding hbounds
        exact ⟨k', e, hbody, hbody'⟩
  gives := by
    intro lib lib' g owner i i' name x x' rule R h h' hrule hR p o extent hout
    obtain ⟨k, hfound, hbody⟩ := h.exists_of_rep
    cases hfound.symm.trans hrule
    cases hout with
    | rep hrounds =>
        cases h' with
        | seq hrule' hparts =>
            obtain ⟨front, back, rfl, hfront, hback⟩ := hparts.exists_append
            obtain ⟨hlength, hcopies⟩ := hfront.of_replicate
            have hgives ⦃i : Nat⦄ (hi : lib'.Implements g owner i e none e.attached) :
                R.Gives lib' ⟨g, k⟩ ⟨g, i⟩ := fun _ _ _ hout => hR hbody hi hout
            have hle := le_of_sound_rep hbounds
            have hcopy : ∀ r' ∈ front.map (RuleRef.mk g), R.Gives lib' ⟨g, k⟩ r' := by
              intro r' hr'
              obtain ⟨i, hi, rfl⟩ := List.mem_map.1 hr'
              exact hgives (hcopies i hi)
            have hfurther ⦃p : Place⦄ ⦃o : Option (List Derivation)⦄ ⦃e : Extent⦄
                (hmore : R.Repeated least ⟨g, k⟩ least most p o e) :
                lib'.GivesAll (back.map (RuleRef.mk g)) p (o.map Derivation.totalLength) :=
              hmore.givesAll_furtherRounds hgives hle hback
            have hrow := hrounds.givesAll hle hfurther
              (fun _ _ _ hr hd => Judgement.givesAll_furtherRounds_zero hgives hback hr hd) hcopy
              (by rw [List.length_map, hlength, Nat.zero_add])
            rw [← List.map_append] at hrow
            rw [Option.map_map]
            exact Library.gives_sequence hrule' rfl hrow

end Expr

namespace Site

/-- A repetition and what it is short for may stand for each other in every place of a grammar,
whatever its bounds are. Either both grammars are accepted or none is. The rules are then
counterparts, those in the place and those that parses begin with among them, and a rule and its
counterpart succeed at the same places and match texts of the same length there: whatever the limits
of the runs are and whatever they have in their memos, unless one of the runs exceeds a limit. -/
theorem length_eq_of_unfolding (site : Site) (e : Expr) (least : Nat) (most : Option Nat)
    (hbounds : (Expr.rep e least most).Sound) :
    ((∃ lib : Library, lib.BuiltFrom (site.drafts (.rep e least most))) ↔
      ∃ lib' : Library, lib'.BuiltFrom (site.drafts (e.unfolding least most))) ∧
    ∀ lib lib' : Library, lib.BuiltFrom (site.drafts (.rep e least most)) →
      lib'.BuiltFrom (site.drafts (e.unfolding least most)) →
      let S := site.Counterpart (.rep e least most) (e.unfolding least most) lib lib'
      Option.Rel S (site.rule? lib) (site.rule? lib') ∧
      (∀ g root, Option.Rel S (lib.parseRoot g root) (lib'.parseRoot g root)) ∧
      (∀ r, lib.Knows r → ∃ r', S r r') ∧
      ∀ r r', S r r' → ∀ s s', lib.Ready s → lib'.Ready s' → s'.place = s.place →
        ((lib.run r s).2.cursor.reachedLimit = false →
          (lib'.run r' s').2.cursor.reachedLimit = false →
            (lib'.run r' s').1.map Derivation.length = (lib.run r s).1.map Derivation.length) ∧
        ((lib.runBare r s).2.cursor.reachedLimit = false →
          (lib'.runBare r' s').2.cursor.reachedLimit = false →
            (lib'.runBare r' s').1.map Derivation.length =
              (lib.runBare r s).1.map Derivation.length) := by
  have hstands := Expr.unfolding_standsFor hbounds
  refine ⟨site.builtFrom_iff (Expr.asFaultless_unfolding hbounds), fun lib lib' hlib hlib' => ?_⟩
  refine ⟨rule?_counterparts hlib hlib', parseRoot_counterparts hlib hlib', ?_, ?_⟩
  · exact fun r hr => exists_counterpart_of_standsFor hstands hlib hlib' hr
  · intro r r' hr s s' hs hs' hplace
    exact ⟨run_length_eq hstands hlib hlib' hr hs hs' hplace,
      runBare_length_eq hstands hlib hlib' hr hs hs' hplace⟩

/-- Three to five letters between brackets, each of which may be left out. The third round matches
nothing, and so do the third copy and the options behind it. -/
theorem length_eq_of_unfolding_between :
    (Expr.rep (.opt (.literal "a")) 3 (some 5)).Sound ∧
      ∃ lib lib' : Library, lib.BuiltFrom (between.drafts (.rep (.opt (.literal "a")) 3 (some 5))) ∧
        lib'.BuiltFrom (between.drafts ((Expr.opt (.literal "a")).unfolding 3 (some 5))) ∧
        (lib.run ⟨0, 5⟩ (.start (.new "<aa>".toList) false)).1.map Derivation.length = some 4 ∧
        (lib'.run ⟨0, 17⟩ (.start (.new "<aa>".toList) false)).1.map Derivation.length = some 4 := by
  let letter : Expr := .opt (.literal "a")
  let rounds : Expr := .rep letter 3 (some 5)
  let lib (e : Expr) : Library := ((Library.add {} (between.draft e)).toOption).getD {}
  have hbounds : rounds.Sound := ⟨by decide, by decide⟩
  have hlib : (lib rounds).BuiltFrom (between.drafts rounds) :=
    builtFrom_between (Library.add_eq_ok_of_isSome (by decide +kernel))
  have hlib' : (lib (letter.unfolding 3 (some 5))).BuiltFrom
      (between.drafts (letter.unfolding 3 (some 5))) :=
    builtFrom_between (Library.add_eq_ok_of_isSome (by decide +kernel))
  obtain ⟨-, hroots, -, hlength⟩ :=
    (length_eq_of_unfolding between letter 3 (some 5) hbounds).2 _ _ hlib hlib'
  have hroot : (lib rounds).parseRoot 0 none = some ⟨0, 5⟩ := by decide +kernel
  have hroot' : (lib (letter.unfolding 3 (some 5))).parseRoot 0 none = some ⟨0, 17⟩ := by
    decide +kernel
  have hrelated := Library.rel_of_eq_some (hroots 0 none) hroot hroot'
  have hstart := Place.isIn_start "<aa>".toList
  have hboth := (hlength _ _ hrelated (.start (.new "<aa>".toList) false)
    (.start (.new "<aa>".toList) false) (Library.ready_start hstart false)
    (Library.ready_start hstart false) rfl).1
  have hfound : ((lib rounds).run ⟨0, 5⟩ (.start (.new "<aa>".toList) false)).1.map Derivation.length =
      some 4 := by decide +kernel
  refine ⟨hbounds, lib rounds, lib (letter.unfolding 3 (some 5)), hlib, hlib', hfound, ?_⟩
  exact (hboth (by decide +kernel) (by decide +kernel)).trans hfound

end Site
end Peg
