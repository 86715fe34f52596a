import Peg.Proofs.Regex.Readers

/-!
# Whole patterns inside a group

A pattern that is read alone and the same pattern read inside an open group with a closing parenthesis
behind it go through the same open groups, one more being open around the second. Where the first
reading ends, the second one closes that group (`readGroups_follows`). Main statement:
`part?_anchored`.
-/

namespace Peg.Regex.Pattern

variable {lost : Prop} {α β ρ σ : Type} {cs cs' rest rest' : List Char} {n m fuel fuel' : Nat}
  {flags : Flags}

/-! ## Patterns -/

namespace Open

/-- The outermost of the groups that are open. -/
def outermost : Open → List Open → Open
  | g, [] => g
  | _, g :: outer => outermost g outer

theorem number_of_repeated? {g g' : Open} {least : Nat} {most : Option Nat} {greedy : Bool}
    (h : g.repeated? least most greedy = some g') : g'.number = g.number := by
  unfold repeated? at h
  split at h
  · split at h
    · cases h
      rfl
    · cases h
  · cases h

theorem number_outermost {g g' : Open} (h : g'.number = g.number) (outer : List Open) :
    (outermost g' outer).number = (outermost g outer).number := by
  cases outer with
  | nil => exact h
  | cons => rfl

/-- A part and nothing else in a group that is not numbered, put into the group around. -/
def around (w : Open) (part : Part) : Part := (w.add part.regex (part.depth + 1)).inside

end Open

/-- What was found alone is found inside the group `w`, unless the parenthesis is lost. -/
def Follows (lost : Prop) (w : Open) (found found' : Option Part) : Prop :=
  ∀ part, found = some part → found' = some (w.around part) ∨ (lost ∧ found' = none)

namespace Follows

variable {w : Open} {R : ρ → ρ → Prop} {found found' : Option ρ}

theorem none {found' : Option Part} : Follows lost w none found' := by
  intro part h
  cases h

theorem bind {k k' : ρ → Option Part} (h : Agrees R found found')
    (hk : ∀ x x', R x x' → Follows lost w (k x) (k' x')) :
    Follows lost w (found >>= k) (found' >>= k') := by
  intro part hpart
  cases hfound : found with
  | none =>
      rw [hfound] at hpart
      cases hpart
  | some x =>
      obtain ⟨x', hfound', hx⟩ := h x hfound
      rw [hfound] at hpart
      rw [hfound']
      exact hk x x' hx part hpart

end Follows

theorem readGroups_follows (w : Open) (h : Enclosed lost cs cs') (hlength : cs.length < fuel)
    (hfuel : fuel < fuel') (flags : Flags) (names : List (List Char)) (groups : Nat) (g : Open)
    (outer : List Open) (hplain : (g.outermost outer).number = none) :
    Follows lost w (readGroups fuel flags names groups g outer cs)
      (readGroups fuel' flags names groups g (outer ++ [w]) cs') := by
  induction fuel generalizing fuel' flags names groups g outer cs cs' with
  | zero => exact .none
  | succ fuel ih =>
      obtain ⟨fuel', rfl⟩ := Nat.exists_eq_succ_of_ne_zero (by omega : fuel' ≠ 0)
      have hskip := h.skip flags
      have hshort := length_skip_le flags cs
      unfold readGroups
      generalize flags.skip cs = s, flags.skip cs' = s' at hskip hshort ⊢
      cases hskip with
      | swallowed hlost =>
          intro part hpart
          exact .inr ⟨hlost, by simp⟩
      | closed =>
          intro part hpart
          obtain ⟨fuel', rfl⟩ := Nat.exists_eq_succ_of_ne_zero (by omega : fuel' ≠ 0)
          cases outer with
          | cons => cases hpart
          | nil =>
              cases hpart
              have hnumber : g.number = none := hplain
              refine .inl ?_
              -- the parenthesis closes the group, and then the text ends
              show readGroups (fuel' + 1) g.outerFlags names groups (g.closeInto w) [] [] = _
              have hend : g.outerFlags.skip [] = [] := by
                unfold Flags.skip
                split <;> rfl
              simp [readGroups, hend, Open.closeInto, hnumber, Open.around]
      | @cons c rest rest' _ hrest =>
          have again : ∀ {t t'}, t.length ≤ rest.length → Enclosed lost t t' →
              ∀ flags names groups g outer, (Open.outermost g outer).number = none →
              Follows lost w (readGroups fuel flags names groups g outer t)
                (readGroups fuel' flags names groups g (outer ++ [w]) t') :=
            fun hle ht flags names groups g outer hplain =>
              ih ht (by grind) (by omega) flags names groups g outer hplain
          have same : ∀ {g'}, g'.number = g.number → (Open.outermost g' outer).number = none :=
            fun hsame => (Open.number_outermost hsame outer).trans hplain
          have repeated : ∀ {t t'}, t.length ≤ rest.length → Enclosed lost t t' →
              ∀ least most greedy,
              Follows lost w
                (g.repeated? least most greedy >>= fun g =>
                  readGroups fuel flags names groups g outer t)
                (g.repeated? least most greedy >>= fun g =>
                  readGroups fuel' flags names groups g (outer ++ [w]) t') := by
            intro t t' hle ht least most greedy part hpart
            obtain ⟨g', hg, hread⟩ := Option.bind_eq_some_iff.1 hpart
            rw [hg]
            exact again hle ht flags names groups g' outer (same (Open.number_of_repeated? hg))
              part hread
          have hlength : rest.length ≤ fuel := by grind
          have hgreed := greed_alike flags hrest
          simp only []
          split
          · refine .bind (opening?_agrees hrest) ?_
            rintro ⟨opening, t⟩ ⟨_, t'⟩ ⟨hsame, hle, ht⟩
            cases hsame
            cases opening with
            | directive flags => exact again hle ht flags _ _ _ _ (same rfl)
            | plain inner => exact again hle ht inner _ _ _ (g :: outer) hplain
            | capture name =>
                simp only []
                split
                · exact .none
                · exact again hle ht flags _ _ _ (g :: outer) hplain
          · cases outer with
            | nil => exact .none
            | cons parent outer =>
                have hclosed : (g.closeInto parent).number = parent.number := rfl
                exact again (Nat.le_refl _) hrest _ _ _ _ outer
                  ((Open.number_outermost hclosed outer).trans hplain)
          · exact again (Nat.le_refl _) hrest _ _ _ _ _ (same rfl)
          · refine .bind (class?_agrees hrest (by omega) (by omega)) ?_
            rintro ⟨set, depth, t⟩ ⟨_, _, t'⟩ ⟨hset, hdepth, hle, ht⟩
            cases hset
            cases hdepth
            exact again hle ht _ _ _ _ _ (same rfl)
          · simp only [hgreed.same]
            exact repeated hgreed.short hgreed.enclosed _ _ _
          · simp only [hgreed.same]
            exact repeated hgreed.short hgreed.enclosed _ _ _
          · simp only [hgreed.same]
            exact repeated hgreed.short hgreed.enclosed _ _ _
          · refine .bind (bounds?_agrees hrest (by omega) (by omega)) ?_
            rintro ⟨least, most, t⟩ ⟨_, _, t'⟩ ⟨hleast, hmost, hle, ht⟩
            cases hleast
            cases hmost
            have hgreed := greed_alike flags (ht.skip flags)
            simp only [hgreed.same]
            exact repeated (Nat.le_trans hgreed.short (Nat.le_trans (length_skip_le flags t) hle))
              hgreed.enclosed _ _ _
          · refine .bind (escape?_agrees hrest (by omega)) ?_
            rintro ⟨escaped, t⟩ ⟨_, t'⟩ ⟨hsame, hle, ht⟩
            cases hsame
            exact again hle ht _ _ _ _ _ (same rfl)
          · exact .bind .rfl fun dot _ hdot =>
              hdot ▸ again (Nat.le_refl _) hrest _ _ _ _ _ (same rfl)
          · exact again (Nat.le_refl _) hrest _ _ _ _ _ (same rfl)
          · exact again (Nat.le_refl _) hrest _ _ _ _ _ (same rfl)
          · exact again (Nat.le_refl _) hrest _ _ _ _ _ (same rfl)

/-! ## Anchors -/

def whole : Open := { outerFlags := {}, number := none }

/-- The part that a pattern is read into. -/
def part? (source : List Char) : Option Part :=
  readGroups (source.length + 1) {} [] 0 whole [] source

/-- A pattern in a group behind the condition to be at the start of the text. -/
def anchored (source : List Char) : List Char := '^' :: '(' :: '?' :: ':' :: (source ++ [')'])

theorem Enclosed.append (h : ∀ c ∈ cs, c = '#' → lost) : Enclosed lost cs (cs ++ [')']) := by
  induction cs with
  | nil => exact .closed
  | cons c cs ih =>
      exact .cons (h c (List.mem_cons_self ..)) (ih fun d hd => h d (List.mem_cons_of_mem _ hd))

theorem part?_anchored_eq (source : List Char) :
    part? (anchored source) =
      readGroups (source.length + 4) {} [] 0 whole [whole.add (.look .textStart) 0]
        (source ++ [')']) := by
  unfold part?
  have hlength : (anchored source).length + 1 = source.length + 6 := by simp [anchored]
  rw [hlength]
  rfl

theorem part?_anchored {source : List Char} {part : Part} (h : part? source = some part) :
    part? (anchored source) =
        some ⟨.ofParts [.look .textStart, part.regex], part.depth + 2⟩ ∨
      ('#' ∈ source ∧ part? (anchored source) = none) := by
  have henclosed : Enclosed ('#' ∈ source) source (source ++ [')']) :=
    .append fun c hc hsign => hsign ▸ hc
  rw [part?_anchored_eq]
  exact readGroups_follows (whole.add (.look .textStart) 0) henclosed (Nat.lt_succ_self _)
    (by omega) {} [] 0 whole [] rfl part h

end Peg.Regex.Pattern
