import Peg.Proofs.Regex.Construction

/-!
# What states lead to

The states that are built for an expression lead to states of the same automaton and set no conditions
but those of the expression. Main statement: `Automaton.build_closed`.
-/

namespace Peg

namespace Regex

mutual

def conditions : Regex → List Look
  | .look condition => [condition]
  | .times _ _ _ body => conditions body
  | .group _ body => conditions body
  | .seq parts => conditionsOfAll parts
  | .alt options => conditionsOfAll options
  | _ => []

def conditionsOfAll : List Regex → List Look
  | [] => []
  | r :: rs => conditions r ++ conditionsOfAll rs

end

theorem conditionsOfAll_eq (rs : List Regex) :
    conditionsOfAll rs = Sequential.all (· ++ ·) [] conditions rs := by
  induction rs with
  | nil => rfl
  | cons r rs ih =>
      show conditions r ++ conditionsOfAll rs = conditions r ++ _
      rw [ih]

theorem sequential_conditions : Sequential (· ++ ·) [] conditions where
  assoc := List.append_assoc
  unit_left := List.nil_append
  unit_right := List.append_nil
  empty := rfl
  literal _ _ := rfl
  seq := conditionsOfAll_eq

theorem conditions_textStart (r : Regex) :
    conditions (ofParts [.look .textStart, r]) = .textStart :: r.conditions := by
  rw [sequential_conditions.apply_ofParts]
  simp [conditions]

end Regex

/-- The states that a state leads to are below a number, and the condition that it sets is as said. -/
def AutomatonState.Within (P : Look → Prop) (k : Nat) : AutomatonState → Prop
  | .read _ next => next < k
  | .look condition next => P condition ∧ next < k
  | .split first second => first < k ∧ second < k
  | _ => True

theorem AutomatonState.Within.mono {P : Look → Prop} {k k' : Nat} {state : AutomatonState}
    (h : state.Within P k) (hle : k ≤ k') : state.Within P k' := by
  cases state with
  | read s next => exact Nat.lt_of_lt_of_le h hle
  | look condition next => exact ⟨h.1, Nat.lt_of_lt_of_le h.2 hle⟩
  | split first second => exact ⟨Nat.lt_of_lt_of_le h.1 hle, Nat.lt_of_lt_of_le h.2 hle⟩
  | _ => trivial

namespace Automaton

variable {P : Look → Prop} {exit : Nat} {stage middle later : Stage} {f : Stage → Stage}

/-- All states lead to states that are there. -/
structure Stage.Closed (P : Look → Prop) (stage : Stage) : Prop where
  ready : stage.IsReady
  within : ∀ state ∈ stage.1, state.Within P stage.1.size

/-- States were added in front of a stage, and all lead to states that are there. -/
structure ClosedOver (P : Look → Prop) (stage later : Stage) : Prop extends Stage.Closed P later where
  size_le : stage.1.size ≤ later.1.size

/-- The function puts states before every stage that lead to states that are there. -/
def Closes (P : Look → Prop) (f : Stage → Stage) : Prop :=
  ∀ stage : Stage, stage.Closed P → ClosedOver P stage (f stage)

namespace ClosedOver

theorem refl (h : stage.Closed P) : ClosedOver P stage stage := ⟨h, Nat.le_refl _⟩

theorem trans (h : ClosedOver P stage middle) (h' : ClosedOver P middle later) :
    ClosedOver P stage later :=
  ⟨h'.toClosed, Nat.le_trans h.size_le h'.size_le⟩

theorem add (h : ClosedOver P stage later) (state : Nat → AutomatonState)
    (hstate : (state later.2).Within P later.1.size) : ClosedOver P stage (later.add state) where
  ready := by simp [Stage.add, Stage.IsReady]
  within s hs := by
    have hle : later.1.size ≤ (later.add state).1.size := by simp [Stage.add]
    obtain hs | rfl := Array.mem_push.1 hs
    · exact (h.within s hs).mono hle
    · exact hstate.mono hle
  size_le := Nat.le_trans h.size_le (by simp [Stage.add])

theorem addSplit (h : ClosedOver P stage later) (greedy : Bool) (hexit : exit < stage.1.size) :
    ClosedOver P stage (Stage.addSplit greedy exit later) := by
  refine h.add _ ?_
  have hexit : exit < later.1.size := Nat.lt_of_lt_of_le hexit h.size_le
  cases greedy with
  | true => exact ⟨h.ready, hexit⟩
  | false => exact ⟨hexit, h.ready⟩

end ClosedOver

namespace Closes

theorem add {state : Nat → AutomatonState} (hstate : ∀ {n k}, n < k → (state n).Within P k) :
    Closes P (Stage.add state) :=
  fun _ h => (ClosedOver.refl h).add state (hstate h.ready)

theorem comp {g : Stage → Stage} (hg : Closes P g) (hf : Closes P f) :
    Closes P fun stage => g (f stage) :=
  fun stage h => (hf stage h).trans (hg _ (hf stage h).toClosed)

theorem literal (chars : List Char) :
    Closes P fun stage => chars.foldr
      (fun c stage => stage.add fun next => .read (.ofChar c) next) stage := by
  induction chars with
  | nil => exact fun _ => .refl
  | cons c cs ih => exact (add id).comp ih

theorem iterate (hf : Closes P f) (n : Nat) : Closes P (Stage.iterate f n) := by
  induction n with
  | zero => exact fun _ => .refl
  | succ n ih =>
      intro stage h
      rw [iterate_succ]
      exact hf.comp ih stage h

theorem optional (hf : Closes P f) (greedy : Bool) (n : Nat) :
    Closes P fun stage =>
      Stage.iterate (fun inner => Stage.addSplit greedy stage.2 (f inner)) n stage := by
  intro stage h
  induction n with
  | zero => exact .refl h
  | succ n ih =>
      simp only [iterate_succ]
      exact (ih.trans (hf _ ih.toClosed)).addSplit greedy h.ready

theorem loop (hf : Closes P f) (greedy : Bool) (h : stage.Closed P) :
    ClosedOver P stage ((Stage.loop greedy f stage).2.1, (Stage.loop greedy f stage).1) ∧
      ClosedOver P stage (Stage.loop greedy f stage).2 := by
  obtain ⟨states, exit⟩ := stage
  have hplace : (Stage.add (fun _ => .fail) (states, exit)).Closed P :=
    ((ClosedOver.refl h).add (fun _ => .fail) trivial).toClosed
  have hbody : ClosedOver P _ (f (states.push .fail, states.size)) := hf _ hplace
  have hloop : Stage.loop greedy f (states, exit) =
      (states.size, (f (states.push .fail, states.size)).1.setIfInBounds states.size
        (Stage.split greedy (f (states.push .fail, states.size)).2 exit),
        (f (states.push .fail, states.size)).2) := rfl
  rw [hloop]
  generalize f (states.push .fail, states.size) = body at hbody ⊢
  obtain ⟨final, entry⟩ := body
  have hsize : states.size < final.size := Nat.lt_of_succ_le (by simpa [Stage.add] using hbody.size_le)
  have hentry : entry < final.size := hbody.ready
  have hexit : exit < final.size := Nat.lt_trans h.ready hsize
  have hlength : (final.setIfInBounds states.size (Stage.split greedy entry exit)).size =
      final.size := Array.size_setIfInBounds
  have hwithin : ∀ state ∈ final.setIfInBounds states.size (Stage.split greedy entry exit),
      state.Within P final.size := by
    intro state hstate
    obtain hstate | rfl := Array.mem_or_eq_of_mem_setIfInBounds hstate
    · exact hbody.within state hstate
    · cases greedy with
      | true => exact ⟨hentry, hexit⟩
      | false => exact ⟨hexit, hentry⟩
  rw [← hlength] at hsize hentry hwithin
  exact ⟨⟨⟨hsize, hwithin⟩, Nat.le_of_lt hsize⟩, ⟨⟨hentry, hwithin⟩, Nat.le_of_lt hsize⟩⟩

end Closes

theorem build_times_closed {body : Regex} (hbody : Closes P (build body)) (least : Nat)
    (most : Option Nat) (greedy : Bool) : Closes P (build (.times least most greedy body)) := by
  intro stage h
  cases most with
  | some most =>
      have hoptional := hbody.optional greedy (most - least) stage h
      have hboth := hoptional.trans (hbody.iterate least _ hoptional.toClosed)
      by_cases honce : least = 0 ∧ most = 1
      · obtain ⟨rfl, rfl⟩ := honce
        exact hboth
      · rw [build]
        · exact hboth
        · intro hleast hmost
          exact honce ⟨hleast, hmost⟩
  | none =>
      obtain ⟨hdecide, hround⟩ := hbody.loop greedy h
      cases least with
      | zero =>
          unfold build
          split
          · exact hdecide
          · exact hround.addSplit greedy h.ready
      | succ least =>
          unfold build
          exact hround.trans (hbody.iterate least _ hround.toClosed)

mutual

/-- What is built for an expression leads to states that are there, and sets its conditions only. -/
theorem build_closed : (r : Regex) → (∀ condition ∈ r.conditions, P condition) → Closes P (build r)
  | .empty, _ => by
      intro stage h
      simp only [build]
      exact .refl h
  | .literal chars, _ => by
      intro stage h
      simp only [build]
      exact Closes.literal chars stage h
  | .set s, _ => by
      intro stage h
      simp only [build]
      exact Closes.add id stage h
  | .look condition, hP => by
      intro stage h
      simp only [build]
      refine Closes.add (fun hn => ?_) stage h
      exact ⟨hP condition (by simp [Regex.conditions]), hn⟩
  | .group _ body, hP => by
      intro stage h
      simp only [build]
      exact build_closed body hP stage h
  | .seq parts, hP => by
      intro stage h
      simp only [build]
      exact buildParts_closed parts hP stage h
  | .alt options, hP => by
      intro stage h
      simp only [build]
      exact buildOptions_closed options hP stage h
  | .times least most greedy body, hP => build_times_closed (build_closed body hP) least most greedy

theorem buildParts_closed : (rs : List Regex) →
    (∀ condition ∈ Regex.conditionsOfAll rs, P condition) → Closes P (buildParts rs)
  | [], _ => by
      intro stage h
      simp only [buildParts]
      exact .refl h
  | [r], hP => by
      intro stage h
      simp only [buildParts]
      exact build_closed r (fun c hc => hP c (List.mem_append_left _ hc)) stage h
  | r :: s :: rs, hP => by
      intro stage h
      rw [buildParts]
      · exact (build_closed r fun c hc => hP c (List.mem_append_left _ hc)).comp
          (buildParts_closed (s :: rs) fun c hc => hP c (List.mem_append_right _ hc)) stage h
      · intro h
        cases h

theorem buildOptions_closed : (rs : List Regex) →
    (∀ condition ∈ Regex.conditionsOfAll rs, P condition) → Closes P (buildOptions rs)
  | [], _ => by
      intro stage h
      simp only [buildOptions]
      exact (ClosedOver.refl h).add _ trivial
  | [r], hP => by
      intro stage h
      simp only [buildOptions]
      exact build_closed r (fun c hc => hP c (List.mem_append_left _ hc)) stage h
  | r :: s :: rs, hP => by
      intro stage h
      have hlater := buildOptions_closed (s :: rs)
        (fun c hc => hP c (List.mem_append_right _ hc)) stage h
      have hready : stage.2 < (buildOptions (s :: rs) stage).1.size :=
        Nat.lt_of_lt_of_le h.ready hlater.size_le
      have hfirst := build_closed r (fun c hc => hP c (List.mem_append_left _ hc))
        ((buildOptions (s :: rs) stage).1, stage.2) ⟨hready, hlater.within⟩
      have hboth : ClosedOver P stage (build r ((buildOptions (s :: rs) stage).1, stage.2)) :=
        ⟨hfirst.toClosed, Nat.le_trans hlater.size_le hfirst.size_le⟩
      have hsecond := Nat.lt_of_lt_of_le hlater.ready hfirst.size_le
      rw [buildOptions]
      · exact hboth.add (fun first => .split first (buildOptions (s :: rs) stage).2)
          ⟨hfirst.ready, hsecond⟩
      · intro h
        cases h

end

/-! ## Whole automata -/

theorem closed_accept : Stage.Closed P (#[.accept], 0) where
  ready := Nat.zero_lt_one
  within state hstate := by
    obtain rfl : state = .accept := by simpa using hstate
    trivial

theorem closed_whole (r : Regex) (hP : ∀ condition ∈ r.conditions, P condition) :
    (whole r).Closed P := by
  have hbuild := (build_closed r hP _ closed_accept).toClosed
  unfold whole
  split
  · exact hbuild
  · exact (Closes.loop (Closes.add id) false hbuild).1.toClosed

theorem buildParts_eq (rs : List Regex) :
    buildParts rs = Regex.Sequential.all (· ∘ ·) id build rs := by
  induction rs with
  | nil =>
      funext stage
      rw [buildParts]
      rfl
  | cons r rs ih =>
      funext stage
      show _ = build r (Regex.Sequential.all (· ∘ ·) id build rs stage)
      rw [← ih]
      cases rs with
      | nil => rw [buildParts, buildParts]
      | cons s rs =>
          rw [buildParts]
          intro h
          cases h

theorem sequential_build : Regex.Sequential (· ∘ ·) id build where
  assoc _ _ _ := rfl
  unit_left _ := rfl
  unit_right _ := rfl
  empty := funext fun _ => by rw [build]; rfl
  literal _ _ := funext fun _ => by
    simp only [build, Function.comp_apply]
    exact List.foldr_append
  seq rs := funext fun _ => by
    simp only [build]
    rw [buildParts_eq]

theorem build_textStart (r : Regex) (stage : Stage) :
    build (.ofParts [.look .textStart, r]) stage =
      (build r stage).add fun next => .look .textStart next := by
  rw [sequential_build.apply_ofParts]
  show build (.look .textStart) (build r stage) = _
  rw [build]

end Automaton

end Peg
