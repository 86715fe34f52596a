import Peg.Rule

/-!
# Patterns inside a group

A pattern is read in a group of its own, with a closing parenthesis behind it. Each reader that
succeeds on a text succeeds on the same text with the parenthesis behind it and finds the same, for a
closing parenthesis is no part of what it reads: `Enclosed` relates the two texts and `Agrees` what is
found in them. The exception is a text that ends inside a comment of an extended pattern, which the
parenthesis then belongs to.
-/

namespace Peg.Regex.Pattern

variable {lost : Prop} {α β ρ σ : Type} {cs cs' rest rest' : List Char} {n m fuel fuel' : Nat}
  {flags : Flags}

/-- The second text is the first one with a closing parenthesis behind it. The parenthesis can be
missing if `lost` holds, and only then may there be number signs. -/
inductive Enclosed (lost : Prop) : List Char → List Char → Prop
  | swallowed : lost → Enclosed lost [] []
  | closed : Enclosed lost [] [')']
  | cons {c : Char} {cs cs' : List Char} :
      (c = '#' → lost) → Enclosed lost cs cs' → Enclosed lost (c :: cs) (c :: cs')

/-- What was found is the same, and the texts that are left are at most `n` characters long and differ
by the parenthesis. -/
structure Alike (lost : Prop) (n : Nat) (found found' : α × List Char) : Prop where
  same : found'.1 = found.1
  short : found.2.length ≤ n
  enclosed : Enclosed lost found.2 found'.2

/-- What was found is the same, two things one after the other. -/
def AlikeBoth (lost : Prop) (n : Nat) (found found' : β × α × List Char) : Prop :=
  found'.1 = found.1 ∧ Alike lost n found.2 found'.2

/-- What the first reader finds is found by the second one. -/
def Agrees (R : ρ → ρ → Prop) (found found' : Option ρ) : Prop :=
  ∀ x, found = some x → ∃ x', found' = some x' ∧ R x x'

namespace Agrees

variable {R : ρ → ρ → Prop} {S : σ → σ → Prop} {found found' : Option ρ}

theorem none : Agrees R none found' := by
  intro x h
  cases h

theorem some {x x' : ρ} (h : R x x') : Agrees R (some x) (some x') := by
  intro y hy
  cases hy
  exact ⟨x', Eq.refl _, h⟩

theorem rfl : Agrees Eq found found := fun x h => ⟨x, h, Eq.refl x⟩

theorem bind {k k' : ρ → Option σ} (h : Agrees R found found')
    (hk : ∀ x x', R x x' → Agrees S (k x) (k' x')) : Agrees S (found >>= k) (found' >>= k') := by
  intro y hy
  cases hfound : found with
  | none =>
      rw [hfound] at hy
      cases hy
  | some x =>
      obtain ⟨x', hfound', hx⟩ := h x hfound
      rw [hfound] at hy
      rw [hfound']
      exact hk x x' hx y hy

theorem map {k k' : ρ → σ} (h : Agrees R found found') (hk : ∀ x x', R x x' → S (k x) (k' x')) :
    Agrees S (found.map k) (found'.map k') := by
  intro y hy
  obtain ⟨x, hx, rfl⟩ := Option.map_eq_some_iff.1 hy
  obtain ⟨x', hfound', hR⟩ := h x hx
  exact ⟨k' x', by rw [hfound', Option.map_some], hk x x' hR⟩

theorem mono {T : ρ → ρ → Prop} (h : Agrees R found found') (hT : ∀ x x', R x x' → T x x') :
    Agrees T found found' := by
  intro x hx
  obtain ⟨x', hfound', hR⟩ := h x hx
  exact ⟨x', hfound', hT x x' hR⟩

end Agrees

namespace Alike

theorem mk' {x : α} (hn : rest.length ≤ n) (h : Enclosed lost rest rest') :
    Alike lost n (x, rest) (x, rest') := ⟨rfl, hn, h⟩

theorem mono {found found' : α × List Char} (h : Alike lost n found found') (hn : n ≤ m) :
    Alike lost m found found' := ⟨h.same, Nat.le_trans h.short hn, h.enclosed⟩

end Alike

namespace Agrees

variable {S : σ → σ → Prop} {found found' : Option (α × List Char)}

theorem andThen {k k' : α × List Char → Option σ} (h : Agrees (Alike lost n) found found')
    (hk : ∀ x rest rest', rest.length ≤ n → Enclosed lost rest rest' →
      Agrees S (k (x, rest)) (k' (x, rest'))) : Agrees S (found >>= k) (found' >>= k') :=
  h.bind fun (x, rest) (_, rest') hx => by
    cases hx.same
    exact hk x rest rest' hx.short hx.enclosed

theorem mapFirst (h : Agrees (Alike lost n) found found') (k : α → β) :
    Agrees (Alike lost n) (found.map fun x => (k x.1, x.2)) (found'.map fun x => (k x.1, x.2)) :=
  h.map fun _ _ hx => ⟨congrArg k hx.same, hx.short, hx.enclosed⟩

theorem withRest {found : Option α} (hn : rest.length ≤ n) (h : Enclosed lost rest rest') :
    Agrees (Alike lost n) (found.map (·, rest)) (found.map (·, rest')) :=
  Agrees.map .rfl fun _ _ hx => hx ▸ .mk' hn h

end Agrees

/-! ## Blanks -/

theorem length_skipBlanks_le (inComment : Bool) (cs : List Char) :
    (Flags.skipBlanks inComment cs).length ≤ cs.length := by
  induction cs generalizing inComment with
  | nil => exact Nat.le_refl _
  | cons c cs ih =>
      unfold Flags.skipBlanks
      split
      · exact Nat.le_succ_of_le (ih _)
      · split
        · exact Nat.le_succ_of_le (ih _)
        · split
          · exact Nat.le_succ_of_le (ih _)
          · exact Nat.le_refl _

theorem length_skip_le (flags : Flags) (cs : List Char) : (flags.skip cs).length ≤ cs.length := by
  unfold Flags.skip
  split
  · exact length_skipBlanks_le false cs
  · exact Nat.le_refl _

namespace Enclosed

theorem skipBlanks (h : Enclosed lost cs cs') {inComment : Bool} (hlost : inComment = true → lost) :
    Enclosed lost (Flags.skipBlanks inComment cs) (Flags.skipBlanks inComment cs') := by
  induction h generalizing inComment with
  | swallowed h => exact .swallowed h
  | closed =>
      cases inComment with
      | true => exact .swallowed (hlost rfl)
      | false => exact .closed
  | @cons c cs cs' hc h ih =>
      unfold Flags.skipBlanks
      split
      · next hin => exact ih fun _ => hlost hin
      · split
        · exact ih fun hin => nomatch hin
        · split
          · next hsign => exact ih fun _ => hc hsign
          · exact .cons hc h

theorem skip (h : Enclosed lost cs cs') (flags : Flags) :
    Enclosed lost (flags.skip cs) (flags.skip cs') := by
  unfold Flags.skip
  split
  · exact h.skipBlanks fun hin => nomatch hin
  · exact h

end Enclosed

namespace Enclosed

theorem of_cons {c : Char} (h : Enclosed lost cs (c :: rest')) (hc : c ≠ ')') :
    ∃ rest, cs = c :: rest ∧ Enclosed lost rest rest' := by
  cases h with
  | closed => exact absurd rfl hc
  | @cons _ rest _ _ hrest => exact ⟨rest, rfl, hrest⟩

theorem starts (h : Enclosed lost cs cs') {c : Char} (hc : c ≠ ')') :
    (∃ rest rest', cs = c :: rest ∧ cs' = c :: rest' ∧ Enclosed lost rest rest') ∨
      ((∀ rest, cs ≠ c :: rest) ∧ ∀ rest, cs' ≠ c :: rest) := by
  cases h with
  | swallowed => exact .inr ⟨fun _ h => (nomatch h), fun _ h => (nomatch h)⟩
  | closed => exact .inr ⟨fun _ h => (nomatch h), fun _ h => hc (List.cons.inj h).1.symm⟩
  | @cons d rest rest' _ hrest =>
      by_cases hd : d = c
      · subst hd
        exact .inl ⟨rest, rest', rfl, rfl, hrest⟩
      · exact .inr ⟨fun _ h => hd (List.cons.inj h).1, fun _ h => hd (List.cons.inj h).1⟩

theorem span (h : Enclosed lost cs cs') {p : Char → Bool} (hp : p ')' = true) :
    (cs.dropWhile p = [] ∧ cs'.dropWhile p = []) ∨
      (cs'.takeWhile p = cs.takeWhile p ∧ Enclosed lost (cs.dropWhile p) (cs'.dropWhile p)) := by
  induction h with
  | swallowed => exact .inl ⟨rfl, rfl⟩
  | closed => exact .inl ⟨rfl, by simp [hp]⟩
  | @cons c cs cs' hc h ih =>
      by_cases hpc : p c = true
      · simpa [hpc] using ih
      · exact .inr ⟨by simp [hpc], by simpa [hpc] using Enclosed.cons hc h⟩

theorem peekPast_eq_some_iff (h : Enclosed lost cs cs') (inComment : Bool) {c : Char}
    (hc : c ≠ ')') :
    Flags.peekPast inComment cs' = some c ↔ Flags.peekPast inComment cs = some c := by
  induction h generalizing inComment with
  | swallowed => exact Iff.rfl
  | closed =>
      have hparen : Flags.peekPast inComment [')'] = some ')' := by
        cases inComment <;> decide
      rw [hparen]
      constructor
      · intro heq
        exact absurd (Option.some.inj heq).symm hc
      · intro heq
        cases heq
  | cons _ _ ih =>
      unfold Flags.peekPast
      split
      · exact ih inComment
      · split
        · exact ih true
        · exact Iff.rfl

theorem peek_eq_some_iff (flags : Flags) (h : Enclosed lost cs cs') {c : Char} (hc : c ≠ ')')
    (hspace : Unicode.isSpace c = false) (hsign : c ≠ '#') :
    flags.peek cs' = some c ↔ flags.peek cs = some c := by
  -- where only blanks follow, the first character is judged, and it is a blank
  have hblank : ∀ cs : List Char, (Flags.peekPast false cs).or cs.head? = some c ↔
      Flags.peekPast false cs = some c := by
    intro cs
    cases cs with
    | nil => exact Iff.rfl
    | cons d cs =>
        cases hpast : Flags.peekPast false (d :: cs) with
        | some e => exact Iff.rfl
        | none =>
            simp only [Option.none_or, List.head?_cons, Option.some.injEq, reduceCtorEq, iff_false]
            intro hd
            subst hd
            simp [Flags.peekPast, hspace, hsign] at hpast
  unfold Flags.peek
  split
  · rw [hblank, hblank]
    exact h.peekPast_eq_some_iff false hc
  · cases h with
    | swallowed | cons => exact Iff.rfl
    | closed => simp [hc.symm]

end Enclosed

end Peg.Regex.Pattern
