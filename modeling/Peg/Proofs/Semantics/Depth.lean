import Peg.Proofs.Semantics.Adequacy
import Peg.Proofs.Semantics.Languages
import Peg.Proofs.Semantics.Reads

/-!
# How deep executions nest

A bound on the nesting of executions, read off the expressions of a grammar. Each name gets a height
for every text that may stand before it, and a definition has to stay below the height of its name,
where the parts of a sequence meet whatever the parts before them may leave. This rules left recursion
out, so rules have outcomes, and runs whose depth is that of the bound find them. Main statements:
`Library.settles_of_nests`, and `Library.settles_of_single` for a grammar of its own.
-/

namespace Peg

namespace Expr

mutual

/-- The executions of an expression nest at most `h` deep where this text is left, if the names in it
have the languages of `L` and the heights of `H`. -/
def Nests (L : String → List Char → Prop) (H : String → List Char → Nat) :
    Expr → List Char → Nat → Prop
  | text _ _, _, h => 0 < h
  | pattern _, _, h => 0 < h
  | range _ _, _, h => 0 < h
  | any, _, h => 0 < h
  | endOfInput, _, h => 0 < h
  | seq parts, t, h => ∃ n < h, NestsAll L H parts t n
  | choice options, t, h => ∃ n < h, NestsEach L H options t n
  | rep body _ _, t, h => ∃ n < h, ∀ (us : List (List Char)) (rest : List Char),
      t = us.flatten ++ rest → (∀ u ∈ us, body.Generates L u) → body.Nests L H rest n
  | ahead body, t, h => ∃ n < h, body.Nests L H t n
  | notAhead body, t, h => ∃ n < h, body.Nests L H t n
  | upTo stop, t, h => ∃ n < h, ∀ front rest, t = front ++ rest → stop.Nests L H rest n
  | ref name, t, h => H name t < h
  | inherited _, _, _ => False
  | label body _, t, h => ∃ n < h, body.Nests L H t n
  | extended body _, t, h => body.Nests L H t h

def NestsAll (L : String → List Char → Prop) (H : String → List Char → Nat) :
    List Expr → List Char → Nat → Prop
  | [], _, _ => True
  | e :: es, t, n => e.Nests L H t n ∧
      ∀ u rest, t = u ++ rest → e.Generates L u → NestsAll L H es rest n

def NestsEach (L : String → List Char → Prop) (H : String → List Char → Nat) :
    List Expr → List Char → Nat → Prop
  | [], _, _ => True
  | e :: es, t, n => e.Nests L H t n ∧ NestsEach L H es t n

end

end Expr

namespace Library

variable {lib : Library} {g : Nat} {owner : String} {L : String → List Char → Prop}
  {H : String → List Char → Nat} {n : Nat}

/-- The rule has an outcome wherever this text is left, and the executions that it takes nest at most
`n` deep. -/
def Settles (lib : Library) (r : RuleRef) (text : List Char) (n : Nat) : Prop :=
  ∀ offset, ∃ outcome extent, lib.Yields r ⟨offset, text⟩ outcome extent ∧ extent.height ≤ n

theorem settles_of_performed {r : RuleRef} {rule : Rule RuleRef} {text : List Char} {h : Nat}
    (hr : lib.rule? r = some rule) (hn : n < h)
    (hkind : ∀ offset, ∃ outcome extent,
      Judgement.Performed lib.Yields rule.kind r ⟨offset, text⟩ outcome extent ∧
        extent.height ≤ n) : lib.Settles r text h := by
  intro offset
  obtain ⟨outcome, extent, hperformed, hheight⟩ := hkind offset
  refine ⟨outcome, _, .intro hr hperformed, ?_⟩
  simp only [Extent.around]
  omega

section Parts

variable (hmatch : ∀ {i : Nat} {e : Expr} {p : Place} {d : Derivation} {extent : Extent},
    lib.Implements g owner i e none e.attached → lib.Yields ⟨g, i⟩ p (some d) extent →
      TakesUp (e.Generates L) p d)

include hmatch

theorem all_settle (hpart : ∀ {i : Nat} {e : Expr} {t : List Char},
      lib.Implements g owner i e none e.attached → e.Nests L H t n → lib.Settles ⟨g, i⟩ t n)
    {ids : List Nat} {es : List Expr} {t : List Char} (hes : lib.ImplementsAll g owner ids es)
    (h : Expr.NestsAll L H es t n) (offset : Nat) : ∃ outcome extent,
      Judgement.All lib.Yields (ids.map (RuleRef.mk g)) ⟨offset, t⟩ outcome extent ∧
        extent.height ≤ n := by
  induction es generalizing ids t offset with
  | nil =>
      cases hes
      exact ⟨_, _, .nil, Nat.zero_le n⟩
  | cons e es ih =>
      cases hes with
      | cons he hes =>
          obtain ⟨hfirst, hbehind⟩ := h
          obtain ⟨outcome, extent, hyields, hheight⟩ := hpart he hfirst offset
          cases outcome with
          | none => exact ⟨none, extent, .fail hyields, hheight⟩
          | some d =>
              obtain ⟨u, rest, hrest, hlength, hu⟩ := hmatch he hyields
              obtain rfl : t = u ++ rest := hrest
              obtain ⟨outcome, extent', hall, hheight'⟩ :=
                ih hes (hbehind u rest rfl hu) (offset + byteLength u)
              rw [← advance_append hlength] at hall
              exact ⟨_, _, .cons hyields hall, Nat.max_le.2 ⟨hheight, hheight'⟩⟩

theorem rounds_settle {i : Nat} {e : Expr} (he : lib.Implements g owner i e none e.attached)
    (least : Nat) (most : Option Nat) {t : List Char}
    (h : ∀ (us : List (List Char)) (rest : List Char), t = us.flatten ++ rest →
      (∀ u ∈ us, e.Generates L u) → lib.Settles ⟨g, i⟩ rest n) (count offset : Nat) :
    ∃ outcome extent,
      Judgement.Repeated lib.Yields count ⟨g, i⟩ least most ⟨offset, t⟩ outcome extent ∧
        extent.height ≤ n := by
  -- a round that goes on leaves less of the text
  induction hlength : t.length using Nat.strong_induction_on generalizing t count offset with
  | _ length ih =>
  by_cases hmost : most = some count
  · exact ⟨_, _, .full hmost, Nat.zero_le n⟩
  obtain ⟨outcome, extent, hyields, hheight⟩ := h [] t rfl (List.forall_mem_nil _) offset
  cases outcome with
  | none => exact ⟨_, _, .stop hmost hyields, hheight⟩
  | some d =>
      by_cases hzero : d.length = 0
      · exact ⟨_, _, .empty hmost hyields hzero, hheight⟩
      obtain ⟨u, rest, hrest, hd, hu⟩ := hmatch he hyields
      obtain rfl : t = u ++ rest := hrest
      have hless : rest.length < length := by
        have hne : u ≠ [] := by
          rintro rfl
          exact hzero hd
        have hpos := List.length_pos_of_ne_nil hne
        rw [← hlength, List.length_append]
        omega
      have hlater (us : List (List Char)) (back : List Char) (hback : rest = us.flatten ++ back)
          (hus : ∀ v ∈ us, e.Generates L v) : lib.Settles ⟨g, i⟩ back n := by
        apply h (u :: us) back
        · rw [hback, List.flatten_cons, List.append_assoc]
        · exact List.forall_mem_cons.2 ⟨hu, hus⟩
      obtain ⟨outcome, extent', hrounds, hheight'⟩ :=
        ih rest.length hless hlater (count + 1) (offset + byteLength u) rfl
      rw [← advance_append hd] at hrounds
      exact ⟨_, _, .more hmost hyields hzero hrounds, Nat.max_le.2 ⟨hheight, hheight'⟩⟩

end Parts

theorem first_settles (hoption : ∀ {i : Nat} {e : Expr} {t : List Char},
      lib.Implements g owner i e none e.attached → e.Nests L H t n → lib.Settles ⟨g, i⟩ t n)
    {ids : List Nat} {es : List Expr} {t : List Char} (hes : lib.ImplementsAll g owner ids es)
    (h : Expr.NestsEach L H es t n) (offset : Nat) : ∃ outcome extent,
      Judgement.First lib.Yields (ids.map (RuleRef.mk g)) ⟨offset, t⟩ outcome extent ∧
        extent.height ≤ n := by
  induction es generalizing ids with
  | nil =>
      cases hes
      exact ⟨_, _, .nil, Nat.zero_le n⟩
  | cons e es ih =>
      cases hes with
      | cons he hes =>
          obtain ⟨outcome, extent, hyields, hheight⟩ := hoption he h.1 offset
          cases outcome with
          | some d => exact ⟨_, _, .found hyields, hheight⟩
          | none =>
              obtain ⟨outcome, extent', hfirst, hheight'⟩ := ih hes h.2
              exact ⟨_, _, .next hyields hfirst, Nat.max_le.2 ⟨hheight, hheight'⟩⟩

theorem upTo_settles {stop : RuleRef} {t : List Char}
    (h : ∀ front rest, t = front ++ rest → lib.Settles stop rest n) (offset : Nat) :
    ∃ length extent, Judgement.UpTo lib.Yields ⟨offset, t⟩ stop length extent ∧
      extent.height ≤ n := by
  induction t generalizing offset with
  | nil =>
      obtain ⟨outcome, extent, hyields, hheight⟩ := h [] [] rfl offset
      cases outcome with
      | some d => exact ⟨_, _, .found hyields, hheight⟩
      | none => exact ⟨_, _, .ended hyields rfl, hheight⟩
  | cons c cs ih =>
      obtain ⟨outcome, extent, hyields, hheight⟩ := h [] (c :: cs) rfl offset
      cases outcome with
      | some d => exact ⟨_, _, .found hyields, hheight⟩
      | none =>
          obtain ⟨length, extent', hupTo, hheight'⟩ :=
            ih (fun front rest hcs => h (c :: front) rest (by rw [hcs, List.cons_append]))
              (offset + c.utf8Size)
          exact ⟨_, _, .past hyields rfl hupTo, Nat.max_le.2 ⟨hheight, hheight'⟩⟩

section Named

variable (hnamed : ∀ other t, lib.lookup g other = some t → ∃ id e name x, t = ⟨g, id⟩ ∧
  lib.Implements g other id e name x ∧ (∀ u, e.Generates L u → L other u) ∧
    ∀ text, e.Nests L H text (H other text))

include hnamed

/-- A rule whose expression nests at most `h` deep has outcomes that nest no deeper. -/
theorem settles_of_nests {h i : Nat} {e : Expr} {name : Option String} {x : Option Extension}
    {text : List Char} (himplements : lib.Implements g owner i e name x)
    (hnests : e.Nests L H text h) : lib.Settles ⟨g, i⟩ text h := by
  have hL (other : String) (t : RuleRef) (ht : lib.lookup g other = some t) :
      ∃ id e name x, t = ⟨g, id⟩ ∧ lib.Implements g other id e name x ∧
        ∀ u, e.Generates L u → L other u := by
    obtain ⟨id, e, name, x, hid, he, hall, -⟩ := hnamed other t ht
    exact ⟨id, e, name, x, hid, he, hall⟩
  induction h using Nat.strong_induction_on generalizing owner i e name x text with
  | _ h ih =>
  have hmatch {owner : String} {i : Nat} {e : Expr} {p : Place} {d : Derivation} {extent : Extent}
      (he : lib.Implements g owner i e none e.attached)
      (hyields : lib.Yields ⟨g, i⟩ p (some d) extent) : TakesUp (e.Generates L) p d :=
    (Yields.derives hyields).generated hL i owner e none e.attached rfl he
  induction e using Expr.induct with
  | extended body extension ihbody =>
      cases himplements with
      | extended hbody => exact ihbody hbody hnests
  | node e he _ =>
      cases himplements with
      | extended => exact absurd rfl (he _ _)
      | text hrule => exact settles_of_performed hrule hnests fun _ => ⟨_, _, .text, Nat.le_refl 0⟩
      | pattern _ hrule | range hrule | any hrule | endOfInput hrule =>
          exact settles_of_performed hrule hnests fun _ => ⟨_, _, .terminal, Nat.le_refl 0⟩
      | seq hrule hparts =>
          obtain ⟨n, hn, hall⟩ := hnests
          refine settles_of_performed hrule hn fun offset => ?_
          obtain ⟨_, _, hperformed, hheight⟩ := all_settle hmatch (ih n hn) hparts hall offset
          exact ⟨_, _, .sequence hperformed, hheight⟩
      | choice hrule hoptions =>
          obtain ⟨n, hn, heach⟩ := hnests
          refine settles_of_performed hrule hn fun offset => ?_
          obtain ⟨_, _, hfirst, hheight⟩ := first_settles (ih n hn) hoptions heach offset
          exact ⟨_, _, .choice hfirst, hheight⟩
      | rep hrule hbody =>
          obtain ⟨n, hn, hrounds⟩ := hnests
          refine settles_of_performed hrule hn fun offset => ?_
          obtain ⟨_, _, hrepeated, hheight⟩ := rounds_settle hmatch hbody _ _
            (fun us rest ht hus => ih n hn hbody (hrounds us rest ht hus)) 0 offset
          exact ⟨_, _, .rep hrepeated, hheight⟩
      | ahead hrule hbody =>
          obtain ⟨n, hn, hnests⟩ := hnests
          refine settles_of_performed hrule hn fun offset => ?_
          obtain ⟨_, _, hyields, hheight⟩ := ih n hn hbody hnests offset
          exact ⟨_, _, .ahead hyields, hheight⟩
      | notAhead hrule hbody =>
          obtain ⟨n, hn, hnests⟩ := hnests
          refine settles_of_performed hrule hn fun offset => ?_
          obtain ⟨_, _, hyields, hheight⟩ := ih n hn hbody hnests offset
          exact ⟨_, _, .notAhead hyields, hheight⟩
      | upTo hrule hstop =>
          obtain ⟨n, hn, hplaces⟩ := hnests
          refine settles_of_performed hrule hn fun offset => ?_
          obtain ⟨_, _, hupTo, hheight⟩ := upTo_settles
            (fun front rest ht => ih n hn hstop (hplaces front rest ht)) offset
          exact ⟨_, _, .upTo hupTo, hheight⟩
      | ref hlookup hrule =>
          obtain ⟨id, e', name', x', rfl, he', -, hbound⟩ := hnamed _ _ hlookup
          refine settles_of_performed hrule hnests fun offset => ?_
          obtain ⟨_, _, hyields, hheight⟩ := ih _ hnests he' (hbound text) offset
          exact ⟨_, _, .ref hyields, hheight⟩
      | inherited => exact hnests.elim
      | label hrule hbody =>
          obtain ⟨n, hn, hnests⟩ := hnests
          refine settles_of_performed hrule hn fun offset => ?_
          obtain ⟨_, _, hyields, hheight⟩ := ih n hn hbody hnests offset
          exact ⟨_, _, .label hyields, hheight⟩

end Named

/-- The rules of a grammar of its own have outcomes that nest no deeper than the heights of their names
say, if no definition exceeds that of its name. -/
theorem settles_of_single {draft : Draft} (hincludes : draft.includes = [])
    (hadd : Library.add {} draft = .ok lib)
    (hL : ∀ definition ∈ draft.definitions, ∀ u, definition.2.Generates L u → L definition.1 u)
    (hH : ∀ definition ∈ draft.definitions, ∀ text,
      definition.2.Nests L H text (H definition.1 text))
    {name : String} {r : RuleRef} (hr : lib.lookup 0 name = some r) (text : List Char) :
    lib.Settles r text (H name text) := by
  have hnamed (other : String) (t : RuleRef) (ht : lib.lookup 0 other = some t) :
      ∃ id e name x, t = ⟨0, id⟩ ∧ lib.Implements 0 other id e name x ∧
        (∀ u, e.Generates L u → L other u) ∧ ∀ text, e.Nests L H text (H other text) := by
    obtain ⟨e, he⟩ := exists_definition_of_single hincludes hadd ht
    obtain ⟨id, hid, himplements⟩ := implements_of_single hincludes hadd he
    exact ⟨id, e, _, _, Option.some.inj (ht.symm.trans hid), himplements, hL _ he, hH _ he⟩
  obtain ⟨id, e, _, _, rfl, himplements, -, hbound⟩ := hnamed name r hr
  exact settles_of_nests hnamed himplements (hbound text)

theorem Settles.unlimited (hlib : lib.Built) {r : RuleRef} (hr : lib.Knows r) {cursor : Cursor}
    (hplace : cursor.place.IsIn cursor.source) (hreached : cursor.reachedLimit = false)
    (hcalls : cursor.calls.limit = none) (hroom : n ≤ cursor.nesting.room)
    (h : lib.Settles r cursor.place.rest n) :
    (lib.run r (.start cursor false)).2.cursor.reachedLimit = false := by
  obtain ⟨outcome, extent, hyields, hheight⟩ := h cursor.place.offset
  have hfinds := run_complete hlib hr hplace hyields hreached (hheight.trans hroom) (by simp [hcalls])
  exact hfinds.2.2

end Library

end Peg
