import Peg.Proofs.Regex.Matches
import Peg.Regex.Automaton

/-!
# Building automata

An automaton spells an expression out between two of its states if it has the states of the expression,
put together as its parts are (`Spells`). What is built before a stage leaves the states of the stage
alone and spells the expression out between the new state to begin with and the one of the stage. Main
statement: `Automaton.build_spells`.
-/

namespace Peg

open Regex (Rounds)

namespace Automaton

variable {a : Automaton} {n low exit : Nat} {stage middle later : Stage} {f g : Stage → Stage}
  {P Q : Automaton → Nat → Nat → Prop}

/-! ## Expressions as states -/

/-- A state that decides between a round that returns to it and the exit. -/
def Loops (a : Automaton) (greedy : Bool) (P : Nat → Nat → Prop) (n exit : Nat) : Prop :=
  ∃ entry, a.state n = Stage.split greedy entry exit ∧ P entry n

/-- A state that decides between a part and its exit. -/
def Skips (a : Automaton) (greedy : Bool) (P : Nat → Nat → Prop) (n exit : Nat) : Prop :=
  ∃ entry, a.state n = Stage.split greedy entry exit ∧ P entry exit

/-- A number of rounds, before each of which it is decided whether to go to the exit. -/
def SkipsRounds (a : Automaton) (greedy : Bool) (P : Nat → Nat → Prop) : Nat → Nat → Nat → Prop
  | 0 => Eq
  | n + 1 => a.Skips greedy (Relation.Comp P (SkipsRounds a greedy P n))

/-- The states of a repetition. Without a bound, a loop comes last. -/
def SpellsTimes (a : Automaton) (greedy neverEmpty : Bool) (P : Nat → Nat → Prop) :
    Nat → Option Nat → Nat → Nat → Prop
  | least, some most => Relation.Comp (Rounds P least) (a.SkipsRounds greedy P (most - least))
  | 0, none =>
    if neverEmpty then a.Loops greedy P
    else a.Skips greedy (Relation.Comp P (a.Loops greedy P))
  | least + 1, none => Relation.Comp (Rounds P least) (Relation.Comp P (a.Loops greedy P))

def SpellsChars (a : Automaton) : List Char → Nat → Nat → Prop
  | [] => Eq
  | c :: cs => Relation.Comp (fun n m => a.state n = .read (.ofChar c) m) (SpellsChars a cs)

mutual

/-- The states of an expression, between the one to begin with and the one to go on with. -/
def Spells (a : Automaton) : Regex → Nat → Nat → Prop
  | .empty => Eq
  | .literal chars => a.SpellsChars chars
  | .set s => fun n m => a.state n = .read s m
  | .look condition => fun n m => a.state n = .look condition m
  | .times least most greedy body => a.SpellsTimes greedy body.neverEmpty (Spells a body) least most
  | .group _ body => Spells a body
  | .seq parts => SpellsParts a parts
  | .alt options => SpellsOptions a options

def SpellsParts (a : Automaton) : List Regex → Nat → Nat → Prop
  | [] => Eq
  | r :: rs => Relation.Comp (Spells a r) (SpellsParts a rs)

def SpellsOptions (a : Automaton) : List Regex → Nat → Nat → Prop
  | [] => fun n _ => a.state n = .fail
  | [r] => Spells a r
  | r :: rs => fun n m =>
    ∃ first second, a.state n = .split first second ∧ Spells a r first m ∧ SpellsOptions a rs second m

end

/-! ## Stages -/

/-- The automaton has the states of an array from a number on. -/
def Has (a : Automaton) (states : Array AutomatonState) (low : Nat) : Prop :=
  ∀ n, low ≤ n → n < states.size → a.states[n]? = states[n]?

/-- The state to go on with is there. -/
def Stage.IsReady (stage : Stage) : Prop := stage.2 < stage.1.size

/-- The later stage has the states of the first one and more. -/
structure Extends (stage later : Stage) : Prop where
  size_le : stage.1.size ≤ later.1.size
  ready : later.IsReady
  same : ∀ n < stage.1.size, later.1[n]? = stage.1[n]?

/-- The states of the later stage that are not in the first one are as said, from the state that the
later stage goes on with to an exit. -/
structure Adds (stage later : Stage) (exit : Nat) (P : Automaton → Nat → Nat → Prop) : Prop
    extends Extends stage later where
  spells : ∀ a : Automaton, a.Has later.1 stage.1.size → P a later.2 exit

theorem Has.state {states : Array AutomatonState} {state : AutomatonState}
    (h : a.Has states low) (hlow : low ≤ n) (hn : states[n]? = some state) : a.state n = state := by
  obtain ⟨hlt, _⟩ := Array.getElem?_eq_some_iff.1 hn
  unfold Automaton.state
  rw [h n hlow hlt, hn]
  rfl

theorem Has.of_extends (h : a.Has later.1 low) (hextends : Extends middle later) :
    a.Has middle.1 low := by
  intro n hlow hn
  rw [h n hlow (Nat.lt_of_lt_of_le hn hextends.size_le), hextends.same n hn]

theorem Has.mono {states : Array AutomatonState} {low' : Nat} (h : a.Has states low)
    (hlow : low ≤ low') : a.Has states low' :=
  fun n hn => h n (Nat.le_trans hlow hn)

theorem Extends.refl (h : stage.IsReady) : Extends stage stage where
  size_le := Nat.le_refl _
  ready := h
  same _ _ := rfl

theorem Extends.trans (h : Extends stage middle) (h' : Extends middle later) :
    Extends stage later where
  size_le := Nat.le_trans h.size_le h'.size_le
  ready := h'.ready
  same n hn := by rw [h'.same n (Nat.lt_of_lt_of_le hn h.size_le), h.same n hn]

theorem Extends.add (h : Extends stage later) (state : Nat → AutomatonState) :
    Extends stage (later.add state) where
  size_le := by simpa [Stage.add] using Nat.le_succ_of_le h.size_le
  ready := by simp [Stage.add, Stage.IsReady]
  same n hn := by
    have hlt : n < later.1.size := Nat.lt_of_lt_of_le hn h.size_le
    rw [← h.same n hn]
    exact Array.getElem?_push_lt hlt |>.trans (Array.getElem?_eq_getElem hlt).symm

namespace Adds

theorem refl (h : stage.IsReady) : Adds stage stage stage.2 fun _ => Eq where
  toExtends := .refl h
  spells _ _ := rfl

theorem comp (h : Adds stage middle exit P) (h' : Adds middle later middle.2 Q) :
    Adds stage later exit fun a => Relation.Comp (Q a) (P a) where
  toExtends := h.trans h'.toExtends
  spells a ha :=
    ⟨middle.2, h'.spells a (ha.mono h.size_le), h.spells a (ha.of_extends h'.toExtends)⟩

theorem add (h : Extends stage later) (state : Nat → AutomatonState)
    (hP : ∀ a : Automaton, a.Has later.1 stage.1.size →
      ∀ n, a.state n = state later.2 → P a n exit) :
    Adds stage (later.add state) exit P where
  toExtends := h.add state
  spells a ha := by
    refine hP a (ha.of_extends ((Extends.refl h.ready).add state)) _ (ha.state h.size_le ?_)
    simp [Stage.add]

theorem addSplit (h : Adds stage later exit P) (greedy : Bool) :
    Adds stage (Stage.addSplit greedy exit later) exit fun a => a.Skips greedy (P a) :=
  add h.toExtends _ fun a ha _ hn => ⟨later.2, hn, h.spells a ha⟩

theorem choice (h : Adds stage middle exit P) (h' : Adds (middle.1, exit) later exit Q) :
    Adds stage (later.add fun _ => .split later.2 middle.2) exit fun a n m =>
      ∃ first second, a.state n = .split first second ∧ Q a first m ∧ P a second m := by
  have hlater : Extends middle later := ⟨h'.size_le, h'.ready, h'.same⟩
  refine add (h.toExtends.trans hlater) _ fun a ha n hn => ?_
  exact ⟨later.2, middle.2, hn, h'.spells a (ha.mono h.size_le), h.spells a (ha.of_extends hlater)⟩

end Adds

theorem iterate_succ (f : Stage → Stage) (n : Nat) (stage : Stage) :
    Stage.iterate f (n + 1) stage = f (Stage.iterate f n stage) := by
  induction n generalizing stage with
  | zero => rfl
  | succ n ih => exact ih (f stage)

/-- The function puts states before every stage that are as said. -/
def Builds (f : Stage → Stage) (P : Automaton → Nat → Nat → Prop) : Prop :=
  ∀ stage : Stage, stage.IsReady → Adds stage (f stage) stage.2 P

namespace Builds

theorem comp (hg : Builds g Q) (hf : Builds f P) :
    Builds (fun stage => g (f stage)) fun a => Relation.Comp (Q a) (P a) :=
  fun stage hready => (hf stage hready).comp (hg _ (hf stage hready).ready)

theorem read (s : CharSet) :
    Builds (Stage.add fun next => .read s next) fun a n m => a.state n = .read s m :=
  fun _ hready => .add (.refl hready) _ fun _ _ _ hn => hn

theorem look (condition : Look) :
    Builds (Stage.add fun next => .look condition next) fun a n m =>
      a.state n = .look condition m :=
  fun _ hready => .add (.refl hready) _ fun _ _ _ hn => hn

theorem literal (chars : List Char) :
    Builds
      (fun stage => chars.foldr
        (fun c stage => stage.add fun next => .read (.ofChar c) next) stage)
      fun a => a.SpellsChars chars := by
  induction chars with
  | nil => exact fun stage hready => .refl hready
  | cons c cs ih => exact (read (.ofChar c)).comp ih

theorem iterate (hf : Builds f P) (n : Nat) :
    Builds (Stage.iterate f n) fun a => Rounds (P a) n := by
  intro stage hready
  induction n with
  | zero => exact .refl hready
  | succ n ih =>
      rw [iterate_succ]
      exact ih.comp (hf _ ih.ready)

theorem optional (hf : Builds f P) (greedy : Bool) (n : Nat) :
    Builds
      (fun stage => Stage.iterate (fun inner => Stage.addSplit greedy stage.2 (f inner)) n stage)
      fun a => a.SkipsRounds greedy (P a) n := by
  intro stage hready
  induction n with
  | zero => exact .refl hready
  | succ n ih =>
      simp only [iterate_succ]
      exact (ih.comp (hf _ ih.ready)).addSplit greedy

theorem loop (hf : Builds f P) (greedy : Bool) (hready : stage.IsReady) :
    Adds stage ((Stage.loop greedy f stage).2.1, (Stage.loop greedy f stage).1) stage.2
        (fun a => a.Loops greedy (P a)) ∧
      Adds stage (Stage.loop greedy f stage).2 stage.2
        fun a => Relation.Comp (P a) (a.Loops greedy (P a)) := by
  obtain ⟨states, exit⟩ := stage
  have hbody := hf (states.push .fail, states.size) (by simp [Stage.IsReady])
  have hloop : Stage.loop greedy f (states, exit) =
      (states.size, (f (states.push .fail, states.size)).1.setIfInBounds states.size
        (Stage.split greedy (f (states.push .fail, states.size)).2 exit),
        (f (states.push .fail, states.size)).2) := rfl
  rw [hloop]
  generalize f (states.push .fail, states.size) = body at hbody ⊢
  obtain ⟨final, entry⟩ := body
  have hsize : states.size < final.size := Nat.lt_of_succ_le (by simpa using hbody.size_le)
  -- the state that the body returns to comes in the place kept for it
  have hlength : (final.setIfInBounds states.size (Stage.split greedy entry exit)).size =
      final.size := Array.size_setIfInBounds
  have hback : (final.setIfInBounds states.size (Stage.split greedy entry exit))[states.size]? =
      some (Stage.split greedy entry exit) := by
    simp [hsize]
  have hother : ∀ n, n ≠ states.size →
      (final.setIfInBounds states.size (Stage.split greedy entry exit))[n]? = final[n]? := by
    intro n hn
    simp [hn.symm]
  generalize final.setIfInBounds states.size (Stage.split greedy entry exit) = closed
    at hlength hback hother ⊢
  have hextends : ∀ x < final.size, Extends (states, exit) (closed, x) := by
    intro x hx
    refine ⟨by simp only [hlength]; omega, by simpa [Stage.IsReady, hlength] using hx, ?_⟩
    intro n hn
    have hn : n < states.size := hn
    show closed[n]? = states[n]?
    rw [hother n (Nat.ne_of_lt hn), hbody.same n (by simp; omega)]
    simp [Array.getElem?_push, Nat.ne_of_lt hn]
  have hround : ∀ a : Automaton, a.Has closed states.size →
      P a entry states.size ∧ a.Loops greedy (P a) states.size exit := by
    intro a ha
    have hentry : P a entry states.size := by
      refine hbody.spells a fun n hlow hn => ?_
      have hlow : states.size + 1 ≤ n := by simpa using hlow
      have hn : n < final.size := hn
      show a.states[n]? = final[n]?
      rw [ha n (by omega) (by omega), hother n (by omega)]
    exact ⟨hentry, entry, ha.state (Nat.le_refl _) hback, hentry⟩
  exact ⟨⟨hextends _ hsize, fun a ha => (hround a ha).2⟩,
    ⟨hextends _ hbody.ready, fun a ha => ⟨_, hround a ha⟩⟩⟩

end Builds

theorem build_times {body : Regex} (hbody : Builds (build body) fun a => a.Spells body)
    (least : Nat) (most : Option Nat) (greedy : Bool) :
    Builds (build (.times least most greedy body)) fun a =>
      a.Spells (.times least most greedy body) := by
  intro stage hready
  simp only [Spells]
  cases most with
  | some most =>
      have hoptional := hbody.optional greedy (most - least) stage hready
      have hboth := hoptional.comp (hbody.iterate least _ hoptional.ready)
      -- a single round that may be left out has an equation of its own, which says the same
      by_cases honce : least = 0 ∧ most = 1
      · obtain ⟨rfl, rfl⟩ := honce
        exact hboth
      · rw [build]
        · exact hboth
        · intro hleast hmost
          exact honce ⟨hleast, hmost⟩
  | none =>
      obtain ⟨hdecide, hround⟩ := hbody.loop greedy hready
      cases least with
      | zero =>
          unfold build
          split
          · next hread =>
              simp only [SpellsTimes, hread, if_true]
              exact hdecide
          · next hread =>
              simp only [SpellsTimes, hread]
              exact hround.addSplit greedy
      | succ least =>
          unfold build
          exact hround.comp (hbody.iterate least _ hround.ready)

mutual

/-- What is built for an expression spells it out. -/
theorem build_spells : (r : Regex) → Builds (build r) fun a => a.Spells r
  | .empty => by
      intro stage hready
      simp only [build, Spells]
      exact .refl hready
  | .literal chars => by
      intro stage hready
      simp only [build, Spells]
      exact Builds.literal chars stage hready
  | .set s => by
      intro stage hready
      simp only [build, Spells]
      exact Builds.read s stage hready
  | .look condition => by
      intro stage hready
      simp only [build, Spells]
      exact Builds.look condition stage hready
  | .group _ body => by
      intro stage hready
      simp only [build, Spells]
      exact build_spells body stage hready
  | .seq parts => by
      intro stage hready
      simp only [build, Spells]
      exact buildParts_spells parts stage hready
  | .alt options => by
      intro stage hready
      simp only [build, Spells]
      exact buildOptions_spells options stage hready
  | .times least most greedy body => build_times (build_spells body) least most greedy

theorem buildParts_spells : (rs : List Regex) → Builds (buildParts rs) fun a => a.SpellsParts rs
  | [] => by
      intro stage hready
      simp only [buildParts, SpellsParts]
      exact .refl hready
  | [r] => by
      intro stage hready
      simp only [buildParts, SpellsParts, Relation.comp_eq]
      exact build_spells r stage hready
  | r :: s :: rs => by
      intro stage hready
      rw [buildParts]
      · exact (build_spells r).comp (buildParts_spells (s :: rs)) stage hready
      · intro h
        cases h

theorem buildOptions_spells : (rs : List Regex) →
    Builds (buildOptions rs) fun a => a.SpellsOptions rs
  | [] => by
      intro stage hready
      simp only [buildOptions, SpellsOptions]
      exact .add (.refl hready) _ fun _ _ _ hn => hn
  | [r] => by
      intro stage hready
      simp only [buildOptions, SpellsOptions]
      exact build_spells r stage hready
  | r :: s :: rs => by
      intro stage hready
      have hlater := buildOptions_spells (s :: rs) stage hready
      have hfirst := build_spells r ((buildOptions (s :: rs) stage).1, stage.2)
        (Nat.lt_of_lt_of_le hready hlater.size_le)
      rw [buildOptions]
      · exact hlater.choice hfirst
      · intro h
        cases h

end

/-! ## Whole automata -/

theorem ready_build (r : Regex) : (build r (#[.accept], 0)).IsReady :=
  (build_spells r (#[.accept], 0) Nat.zero_lt_one).ready

theorem extends_whole (r : Regex) : Extends (build r (#[.accept], 0)) (whole r) := by
  unfold whole
  split
  · exact .refl (ready_build r)
  · exact ((Builds.read _).loop false (ready_build r)).1.toExtends

theorem ofRegex_spells (r : Regex) :
    (ofRegex r).state 0 = .accept ∧ (ofRegex r).Spells r (build r (#[.accept], 0)).2 0 := by
  have hadds := build_spells r (#[.accept], 0) Nat.zero_lt_one
  have hhas : (ofRegex r).Has (build r (#[.accept], 0)).1 0 := by
    intro n _ hn
    exact (extends_whole r).same n hn
  refine ⟨hhas.state (Nat.le_refl 0) ?_, hadds.spells _ (hhas.mono (Nat.zero_le _))⟩
  rw [hadds.same 0 Nat.zero_lt_one]
  rfl

theorem ofRegex_start (r : Regex) :
    (ofRegex r).start = (build r (#[.accept], 0)).2 ∨
      r.startsAtText = false ∧ (build r (#[.accept], 0)).1.size ≤ (ofRegex r).start ∧
        ∃ entry s,
          (ofRegex r).state (ofRegex r).start = .split (build r (#[.accept], 0)).2 entry ∧
          (ofRegex r).state entry = .read s (ofRegex r).start := by
  cases hstarts : r.startsAtText with
  | true => exact .inl (by simp [ofRegex, whole, hstarts])
  | false =>
      have hloop := ((Builds.read { ranges := [(0, 0x10ffff)] }).loop false (ready_build r)).1
      have hhas : (ofRegex r).Has (whole r).1 (build r (#[.accept], 0)).1.size := fun _ _ _ => rfl
      have hstart : (ofRegex r).start = (whole r).2 := rfl
      unfold whole at hhas hstart
      rw [hstarts] at hhas hstart
      obtain ⟨entry, hsplit, hread⟩ := hloop.spells (ofRegex r) hhas
      rw [hstart]
      exact .inr ⟨rfl, Nat.le_refl _, entry, _, hsplit, hread⟩

end Automaton

end Peg
