import Peg.Proofs.Semantics.Congruence

/-!
# Operators and what they are short for

A rule that looks ahead is one that does not fail to, a scan goes past one character after the other
at which its end does not match, and an option is a choice with nothing as the other one. Main
statement: `Site.length_eq_of_law`, in every place of a grammar the one may be written for the other.
-/

namespace Peg

/-- The second expression is what the first one is short for. -/
inductive Expr.Law : Expr → Expr → Prop
  | ahead (e : Expr) : Law (.ahead e) (.notAhead (.notAhead e))
  | upTo (e : Expr) : Law (.upTo e) (.oneOrMore (.seq [.notAhead e, .any]))
  | opt (e : Expr) : Law (.opt e) (.choice [e, .literal ""])

/-! ## Lengths that rules give -/

namespace Library

variable {lib : Library} {r : RuleRef} {rule : Rule RuleRef} {p : Place} {n : Option Nat}
  (hrule : lib.rule? r = some rule)

include hrule

theorem gives_notAhead {j : Nat} (hkind : rule.kind = .notAhead j) (h : lib.Gives (r.sibling j) p n) :
    lib.Gives r p (if n.isSome then none else some 0) := by
  obtain ⟨o, e, hout, rfl⟩ := h
  have hgives := gives_of_performed hrule hkind (.notAhead hout)
  cases o <;> exact hgives

theorem gives_any (hkind : rule.kind = .terminal .any) :
    lib.Gives r p (p.rest.head?.map Char.utf8Size) := by
  have hgives := gives_of_performed (p := p) hrule hkind .terminal
  rw [Option.map_map] at hgives
  cases hrest : p.rest <;> rw [hrest] at hgives <;> exact hgives

theorem gives_nothing (hkind : rule.kind = .text [] false) : lib.Gives r p (some 0) :=
  gives_of_performed hrule hkind .text

theorem gives_orElse {i j : Nat} {m : Option Nat} (hkind : rule.kind = .choice [i, j])
    (hi : lib.Gives (r.sibling i) p n) (hj : lib.Gives (r.sibling j) p m) :
    lib.Gives r p (n.or m) := by
  obtain ⟨o, e, hout, rfl⟩ := hi
  obtain ⟨o', e', hout', rfl⟩ := hj
  cases o with
  | some d => exact gives_of_performed hrule hkind (.choice (.found hout))
  | none =>
      cases o' with
      | some d => exact gives_of_performed hrule hkind (.choice (.next hout (.found hout')))
      | none => exact gives_of_performed hrule hkind (.choice (.next hout (.next hout' .nil)))

theorem gives_guarded {i j : Nat} (hkind : rule.kind = .sequence [i, j])
    (hi : lib.Gives (r.sibling i) p (if n.isSome then none else some 0)) {m : Option Nat}
    (hj : lib.Gives (r.sibling j) p m) :
    lib.Gives r p (if n.isSome then none else m) := by
  obtain ⟨o, e, hout, ho⟩ := hi
  obtain ⟨o', e', hout', rfl⟩ := hj
  cases n with
  | some _ =>
      obtain rfl : o = none := Option.map_eq_none_iff.1 ho
      exact gives_of_performed hrule hkind (.sequence (.fail hout))
  | none =>
      obtain ⟨d, rfl, hd⟩ := Option.map_eq_some_iff.1 ho
      have hplace : p.advance d.length = p := by
        rw [hd]
        exact p.advance_zero
      rw [← hplace] at hout'
      cases o' with
      | none => exact gives_of_performed hrule hkind (.sequence (.cons hout (.fail hout')))
      | some d' =>
          have hgives := gives_of_performed hrule hkind (.sequence (.cons hout (.cons hout' .nil)))
          simp only [Option.map_some, Derivation.totalLength, Derivation.length, hd] at hgives
          simpa using hgives

theorem gives_rounds {j least : Nat} {most : Option Nat} (hkind : rule.kind = .rep j least most)
    {o : Option (List Derivation)} {e : Extent}
    (h : Judgement.Repeated lib.Yields 0 (r.sibling j) least most p o e) :
    lib.Gives r p (o.map Derivation.totalLength) := by
  have hgives := gives_of_performed hrule hkind (.rep h)
  rw [Option.map_map] at hgives
  exact hgives

end Library

/-! ## Rules that implement the operators -/

namespace Library.Implements

variable {lib : Library} {g i : Nat} {owner : String} {e : Expr} {name : Option String}
  {x : Option Extension}

theorem exists_of_rep {least : Nat} {most : Option Nat}
    (h : lib.Implements g owner i (.rep e least most) name x) :
    ∃ j, lib.rule? ⟨g, i⟩ = some { kind := .rep j least most, name, extension := x } ∧
      lib.Implements g owner j e none e.attached := by
  cases h with
  | rep hrule hbody => exact ⟨_, hrule, hbody⟩

theorem exists_of_ahead (h : lib.Implements g owner i (.ahead e) name x) :
    ∃ j, lib.rule? ⟨g, i⟩ = some { kind := .ahead j, name, extension := x } ∧
      lib.Implements g owner j e none e.attached := by
  cases h with
  | ahead hrule hbody => exact ⟨_, hrule, hbody⟩

theorem exists_of_notAhead (h : lib.Implements g owner i (.notAhead e) name x) :
    ∃ j, lib.rule? ⟨g, i⟩ = some { kind := .notAhead j, name, extension := x } ∧
      lib.Implements g owner j e none e.attached := by
  cases h with
  | notAhead hrule hbody => exact ⟨_, hrule, hbody⟩

theorem exists_of_upTo (h : lib.Implements g owner i (.upTo e) name x) :
    ∃ j, lib.rule? ⟨g, i⟩ = some { kind := .upTo j, name, extension := x } ∧
      lib.Implements g owner j e none e.attached := by
  cases h with
  | upTo hrule hstop => exact ⟨_, hrule, hstop⟩

end Library.Implements

namespace Judgement.GivenBy

variable {R : Judgement} {lib lib' : Library} {g i j : Nat} {owner : String} {e : Expr}
  {name : Option String} {x : Option Extension} (hR : R.GivenBy lib lib' g owner)
  (hj : lib.Implements g owner j e none e.attached) {p : Place} {o : Option Derivation} {extent : Extent}
  (hout : R ⟨g, j⟩ p o extent)

include hR hj hout

theorem notAhead (h : lib'.Implements g owner i (.notAhead e) name x) :
    lib'.Gives ⟨g, i⟩ p (if o.isSome then none else some 0) := by
  obtain ⟨k, hrule, hk⟩ := h.exists_of_notAhead
  have hgives := Library.gives_notAhead hrule rfl (hR hj hk hout)
  rwa [Option.isSome_map] at hgives

theorem step (h : lib'.Implements g owner i (.seq [.notAhead e, .any]) name x) :
    lib'.Gives ⟨g, i⟩ p (if o.isSome then none else p.rest.head?.map Char.utf8Size) := by
  cases h with
  | seq hrule hparts =>
      cases hparts with
      | cons hnot hrest =>
          cases hrest with
          | cons hany hnil =>
              cases hnil
              cases hany with
              | any hany =>
                  have hguard := hR.notAhead hj hout hnot
                  rw [← Option.isSome_map (f := Derivation.length)] at hguard ⊢
                  exact Library.gives_guarded hrule rfl hguard (Library.gives_any hany rfl)

theorem orNothing (h : lib'.Implements g owner i (.choice [e, .literal ""]) name x) :
    lib'.Gives ⟨g, i⟩ p ((o.map Derivation.length).or (some 0)) := by
  cases h with
  | choice hrule hoptions =>
      cases hoptions with
      | cons hbody hrest =>
          cases hrest with
          | cons hnothing hnil =>
              cases hnil
              cases hnothing with
              | text hempty =>
                  exact Library.gives_orElse hrule rfl (hR hj hbody hout)
                    (Library.gives_nothing hempty rfl)

end Judgement.GivenBy

/-! ## Looking ahead -/

theorem Expr.ahead_standsFor (e : Expr) : (notAhead (.notAhead e)).StandsFor (.ahead e) where
  parts := by
    intro lib lib' g owner i i' name x x' rule h h' hrule j hj
    obtain ⟨k, hfound, hbody⟩ := h.exists_of_ahead
    obtain ⟨_, _, hinner⟩ := h'.exists_of_notAhead
    obtain ⟨k', _, hbody'⟩ := hinner.exists_of_notAhead
    cases hfound.symm.trans hrule
    rw [List.mem_singleton.1 hj]
    exact ⟨k', e, hbody, hbody'⟩
  gives := by
    intro lib lib' g owner i i' name x x' rule R h h' hrule hR p o extent hout
    obtain ⟨k, hfound, hbody⟩ := h.exists_of_ahead
    obtain ⟨k', hrule', hinner⟩ := h'.exists_of_notAhead
    cases hfound.symm.trans hrule
    cases hout with
    | @ahead _ _ _ outcome _ hout =>
        have hnotNot := Library.gives_notAhead hrule' rfl (hR.notAhead hbody hout hinner)
        cases outcome <;> exact hnotNot

/-! ## Options -/

theorem Judgement.Repeated.map_totalLength_once {R : Judgement} {r : RuleRef} {p : Place}
    {os : Option (List Derivation)} {e : Extent} (h : R.Repeated 0 r 0 (some 1) p os e) :
    ∃ o e', R r p o e' ∧ os.map Derivation.totalLength = (o.map Derivation.length).or (some 0) := by
  cases h with
  | full hmost => cases hmost
  | stop _ hr => exact ⟨none, _, hr, rfl⟩
  | empty _ hr hlength =>
      refine ⟨_, _, hr, ?_⟩
      simp [Derivation.totalLength]
  | more _ hr _ hrest =>
      refine ⟨_, _, hr, ?_⟩
      cases hrest with
      | full _ => simp [Derivation.totalLength]
      | stop hmost _ | empty hmost _ _ | more hmost _ _ _ => exact absurd rfl hmost

theorem Expr.opt_standsFor (e : Expr) : (choice [e, .literal ""]).StandsFor (.opt e) where
  parts := by
    intro lib lib' g owner i i' name x x' rule h h' hrule j hj
    obtain ⟨k, hfound, hbody⟩ := h.exists_of_rep
    cases hfound.symm.trans hrule
    rw [List.mem_singleton.1 hj]
    cases h' with
    | choice _ hoptions =>
        cases hoptions with
        | cons hbody' _ => exact ⟨_, e, hbody, hbody'⟩
  gives := by
    intro lib lib' g owner i i' name x x' rule R h h' hrule hR p o extent hout
    obtain ⟨k, hfound, hbody⟩ := h.exists_of_rep
    cases hfound.symm.trans hrule
    cases hout with
    | rep hout =>
        obtain ⟨o', extent', hr, hlength⟩ := hout.map_totalLength_once
        rw [Option.map_map]
        show lib'.Gives _ _ (Option.map Derivation.totalLength _)
        rw [hlength]
        exact hR.orNothing hbody hr h'

/-! ## Scanning -/

/-- A rule that takes up one character where the end of a scan does not match, and fails where it does
and at the end of the text, takes up as much as the scan in as many rounds as there are. -/
theorem Judgement.UpTo.repeated {R : Judgement} {lib : Library} {stop step : RuleRef} {p : Place}
    {n : Nat} {e : Extent} (h : R.UpTo p stop n e)
    (hstep : ∀ {q o e}, R stop q o e →
      lib.Gives step q (if o.isSome then none else q.rest.head?.map Char.utf8Size)) (count : Nat) :
    ∃ os e', Judgement.Repeated lib.Yields count step 1 none p os e' ∧
      os.map Derivation.totalLength = if 1 ≤ count ∨ 0 < n then some n else none := by
  have hstop {p : Place} (count : Nat) (hgives : lib.Gives step p none) :
      ∃ os e', Judgement.Repeated lib.Yields count step 1 none p os e' ∧
        os.map Derivation.totalLength = if 1 ≤ count ∨ 0 < 0 then some 0 else none := by
    obtain ⟨o, e', hout, hnone⟩ := hgives
    obtain rfl : o = none := Option.map_eq_none_iff.1 hnone
    refine ⟨_, e', .stop (by nofun) hout, ?_⟩
    by_cases hcount : 1 ≤ count
    · simp [hcount, Derivation.totalLength]
    · simp [hcount]
  induction h generalizing count with
  | found hr => exact hstop count (hstep hr)
  | ended hr hrest =>
      have hgives := hstep hr
      rw [hrest] at hgives
      exact hstop count hgives
  | @past p stop c rest n _ _ hr hrest _ ih =>
      have hgives := hstep hr
      rw [hrest] at hgives
      obtain ⟨o, e', hout, hlength⟩ := hgives
      obtain ⟨d, rfl, hd⟩ := Option.map_eq_some_iff.1 hlength
      have hsize : 0 < c.utf8Size := c.utf8Size_pos
      obtain ⟨os, e'', hrounds, htotal⟩ := ih hstep (count + 1)
      rw [Place.past_eq_advance hrest, ← hd] at hrounds
      refine ⟨_, _, .more (by nofun) hout (by omega) hrounds, ?_⟩
      rw [if_pos (.inl (by omega))] at htotal
      obtain ⟨ds, rfl, hds⟩ := Option.map_eq_some_iff.1 htotal
      rw [if_pos (.inr (by omega))]
      simp only [Option.map_some, Derivation.totalLength, hd, hds]

theorem Expr.upTo_standsFor (e : Expr) :
    (oneOrMore (.seq [.notAhead e, .any])).StandsFor (.upTo e) where
  parts := by
    intro lib lib' g owner i i' name x x' rule h h' hrule j hj
    obtain ⟨k, hfound, hstop⟩ := h.exists_of_upTo
    obtain ⟨_, _, hstep⟩ := h'.exists_of_rep
    cases hfound.symm.trans hrule
    rw [List.mem_singleton.1 hj]
    cases hstep with
    | seq _ hparts =>
        cases hparts with
        | cons hnot _ =>
            obtain ⟨k', _, hstop'⟩ := hnot.exists_of_notAhead
            exact ⟨k', e, hstop, hstop'⟩
  gives := by
    intro lib lib' g owner i i' name x x' rule R h h' hrule hR p o extent hout
    obtain ⟨k, hfound, hstop⟩ := h.exists_of_upTo
    obtain ⟨k', hrule', hstep⟩ := h'.exists_of_rep
    cases hfound.symm.trans hrule
    cases hout with
    | @upTo _ _ _ n _ hout =>
        obtain ⟨os, extent', hrounds, htotal⟩ :=
          hout.repeated (fun hr => hR.step hstop hr hstep) 0
        have hgives := Library.gives_rounds hrule' rfl hrounds
        rw [htotal] at hgives
        by_cases hn : 0 < n
        · rw [if_pos (.inr hn)] at hgives
          rw [if_pos hn]
          exact hgives
        · rw [if_neg (by omega)] at hgives
          rw [if_neg hn]
          exact hgives

/-! ## In every place -/

theorem Expr.Law.standsFor {e e' : Expr} (h : Law e e') : e'.StandsFor e := by
  cases h with
  | ahead e => exact e.ahead_standsFor
  | upTo e => exact e.upTo_standsFor
  | opt e => exact e.opt_standsFor

namespace Expr

/-- The nodes that the laws are about. There is nothing wrong with them, whatever their operands are. -/
inductive Plain : Expr → Prop
  | ahead (e : Expr) : Plain (.ahead e)
  | notAhead (e : Expr) : Plain (.notAhead e)
  | upTo (e : Expr) : Plain (.upTo e)
  | opt (e : Expr) : Plain (.opt e)
  | oneOrMore (e : Expr) : Plain (.oneOrMore e)
  | pair (e e' : Expr) : Plain (.seq [e, e'])
  | either (e e' : Expr) : Plain (.choice [e, e'])
  | any : Plain .any
  | literal (s : String) : Plain (.literal s)

theorem Plain.isNode {e : Expr} (h : e.Plain) : e.IsNode := by
  intro body extension heq
  subst heq
  cases h

theorem Plain.sound {e : Expr} (h : e.Plain) : e.Sound := by
  cases h with
  | opt e => exact ⟨Nat.le_refl 1, Nat.zero_le 1⟩
  | pair e e' | either e e' => exact List.cons_ne_nil e [e']
  | _ => trivial

theorem Plain.resolved {e : Expr} (h : e.Plain) (draft : Draft) (lib : Library) (rule : String) :
    e.Resolved draft lib rule := by
  cases h <;> trivial

variable {P : Expr → Prop} (hP : ∀ e : Expr, e.Plain → P e)

include hP

theorem Plain.throughout_iff {e : Expr} (h : e.Plain) :
    e.Throughout P ↔ ∀ part ∈ e.parts, part.Throughout P := by
  rw [throughout_node_iff h.isNode, and_iff_right (hP e h)]

theorem Law.throughout_iff {e e' : Expr} (h : Law e e') : e.Throughout P ↔ e'.Throughout P := by
  have hone {e part : Expr} (h : e.Plain) (hparts : e.parts = [part]) :
      e.Throughout P ↔ part.Throughout P :=
    throughout_single_iff h.isNode hparts (hP e h)
  have hleaf {e : Expr} (h : e.Plain) (hparts : e.parts = []) : e.Throughout P := by
    rw [h.throughout_iff hP, hparts]
    nofun
  have htwo {e part leaf : Expr} (h : e.Plain) (hparts : e.parts = [part, leaf])
      (hleaf : leaf.Throughout P) : e.Throughout P ↔ part.Throughout P := by
    rw [h.throughout_iff hP, hparts, List.forall_mem_cons, List.forall_mem_singleton,
      and_iff_left hleaf]
  cases h with
  | ahead e =>
      rw [hone (.ahead e) rfl, hone (.notAhead _) rfl, hone (.notAhead e) rfl]
  | upTo e =>
      rw [hone (.upTo e) rfl, hone (.oneOrMore _) rfl, htwo (.pair _ _) rfl (hleaf .any rfl),
        hone (.notAhead e) rfl]
  | opt e =>
      rw [hone (.opt e) rfl, htwo (.either _ _) rfl (hleaf (.literal "") rfl)]

omit hP in
theorem Law.asFaultless {e e' : Expr} (h : Law e e') : e.AsFaultless e' where
  sound := h.throughout_iff fun _ hplain => hplain.sound
  resolved draft lib rule := h.throughout_iff fun _ hplain => hplain.resolved draft lib rule

end Expr

namespace Site

/-- An operator and what it is short for may stand for each other in every place of a grammar. Either
both grammars are accepted or none is. The rules are then counterparts, those that parses begin with among
them, and a rule and its counterpart succeed at the same places and match texts of the same length there:
whatever the limits of the runs are and whatever they have in their memos, unless one of the runs exceeds
a limit. -/
theorem length_eq_of_law (site : Site) {e e' : Expr} (hlaw : e.Law e') :
    ((∃ lib : Library, lib.BuiltFrom (site.drafts e)) ↔
      ∃ lib' : Library, lib'.BuiltFrom (site.drafts e')) ∧
    ∀ lib lib' : Library, lib.BuiltFrom (site.drafts e) → lib'.BuiltFrom (site.drafts e') →
      (∀ g root, Option.Rel (site.Counterpart e e' lib lib') (lib.parseRoot g root)
        (lib'.parseRoot g root)) ∧
      (∀ r, lib.Knows r → ∃ r', site.Counterpart e e' lib lib' r r') ∧
      ∀ r r', site.Counterpart e e' lib lib' r r' →
        ∀ s s', lib.Ready s → lib'.Ready s' → s'.place = s.place →
          ((lib.run r s).2.cursor.reachedLimit = false →
            (lib'.run r' s').2.cursor.reachedLimit = false →
              (lib'.run r' s').1.map Derivation.length = (lib.run r s).1.map Derivation.length) ∧
          ((lib.runBare r s).2.cursor.reachedLimit = false →
            (lib'.runBare r' s').2.cursor.reachedLimit = false →
              (lib'.runBare r' s').1.map Derivation.length =
                (lib.runBare r s).1.map Derivation.length) := by
  have hstands := hlaw.standsFor
  refine ⟨site.builtFrom_iff hlaw.asFaultless, fun lib lib' hlib hlib' => ⟨?_, ?_, ?_⟩⟩
  · exact parseRoot_counterparts hlib hlib'
  · exact fun r hr => exists_counterpart_of_standsFor hstands hlib hlib' hr
  · intro r r' hr s s' hs hs' hplace
    exact ⟨run_length_eq hstands hlib hlib' hr hs hs' hplace,
      runBare_length_eq hstands hlib hlib' hr hs hs' hplace⟩

/-- Characters between brackets are matched up to the closing one in both ways. -/
theorem length_eq_of_law_between :
    Expr.Law (.upTo (.literal ">")) (.oneOrMore (.seq [.notAhead (.literal ">"), .any])) ∧
      ∃ lib lib' : Library, lib.BuiltFrom (between.drafts (.upTo (.literal ">"))) ∧
        lib'.BuiltFrom (between.drafts (.oneOrMore (.seq [.notAhead (.literal ">"), .any]))) ∧
        (lib.run ⟨0, 4⟩ (.start (.new "<ab>".toList) false)).1.map Derivation.length = some 4 ∧
        (lib'.run ⟨0, 7⟩ (.start (.new "<ab>".toList) false)).1.map Derivation.length = some 4 := by
  let scan : Expr := .upTo (.literal ">")
  let step : Expr := .oneOrMore (.seq [.notAhead (.literal ">"), .any])
  let lib (e : Expr) : Library := ((Library.add {} (between.draft e)).toOption).getD {}
  have hlaw : scan.Law step := .upTo (.literal ">")
  have hlib : (lib scan).BuiltFrom (between.drafts scan) :=
    builtFrom_between (Library.add_eq_ok_of_isSome (by decide +kernel))
  have hlib' : (lib step).BuiltFrom (between.drafts step) :=
    builtFrom_between (Library.add_eq_ok_of_isSome (by decide +kernel))
  obtain ⟨hroots, -, hlength⟩ := (length_eq_of_law between hlaw).2 _ _ hlib hlib'
  have hroot : (lib scan).parseRoot 0 none = some ⟨0, 4⟩ := by decide +kernel
  have hroot' : (lib step).parseRoot 0 none = some ⟨0, 7⟩ := by decide +kernel
  have hrelated := Library.rel_of_eq_some (hroots 0 none) hroot hroot'
  have hstart := Place.isIn_start "<ab>".toList
  have hboth := (hlength _ _ hrelated (.start (.new "<ab>".toList) false)
    (.start (.new "<ab>".toList) false) (Library.ready_start hstart false)
    (Library.ready_start hstart false) rfl).1
  have hfound : ((lib scan).run ⟨0, 4⟩ (.start (.new "<ab>".toList) false)).1.map Derivation.length =
      some 4 := by decide +kernel
  refine ⟨hlaw, lib scan, lib step, hlib, hlib', hfound, ?_⟩
  exact (hboth (by decide +kernel) (by decide +kernel)).trans hfound

end Site

end Peg
