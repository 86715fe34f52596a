import Peg.Proofs.Engine.Translate

/-!
# Runs further on in another text

Two runs of a rule that have the same text before them, one of them `k` bytes further on, find the
same and stay `k` bytes apart, limits and memo included. Main statement: `Library.run_inStep`.
-/

namespace Peg

/-- The place `k` bytes further on that has the same text before it. -/
def Place.shift (k : Nat) (p : Place) : Place := { p with offset := p.offset + k }

namespace Place

variable (k : Nat) (p : Place)

@[simp] theorem rest_shift : (p.shift k).rest = p.rest := rfl

@[simp] theorem offset_shift : (p.shift k).offset = p.offset + k := rfl

theorem advance_shift (n : Nat) : (p.shift k).advance n = (p.advance n).shift k := by
  simp [shift, advance, Nat.add_right_comm]

end Place

/-! ## Rules under the same numbers -/

theorem Kind.renumber_id {τ : Type} (kind : Kind τ) : kind.renumber id id = kind := by
  cases kind <;> simp [renumber]

theorem Rule.renumber_id {τ : Type} (rule : Rule τ) : rule.renumber id id = rule := by
  simp [renumber, Kind.renumber_id]

namespace Translation

/-- The same rules, `k` bytes further on. -/
def further (k : Nat) : Translation := ⟨fun _ => Equiv.refl Nat, k⟩

variable (k : Nat)

mutual

theorem derivation_further (d : Derivation) : (further k).derivation d = d := by
  cases d with
  | branch r n parts => rw [derivation, derivations_further parts]; rfl
  | wrapped r inner => rw [derivation, derivation_further inner]; rfl

theorem derivations_further (ds : List Derivation) : (further k).derivations ds = ds := by
  cases ds with
  | nil => rfl
  | cons d ds => rw [derivations, derivation_further d, derivations_further ds]

end

theorem renumbers_further (lib : Library) : lib.Renumbers (further k) lib := by
  intro r
  have hrule : Rule.renumber ((further k).numbers r.grammar) (further k).rule =
      (id : Rule RuleRef → Rule RuleRef) := funext Rule.renumber_id
  rw [hrule, Option.map_id]
  rfl

end Translation

/-! ## Runs -/

/-- In the state `t` everything is as in `s`, but `k` bytes further on. -/
abbrev State.Shifted (k : Nat) : State → State → Prop := State.Translated (.further k)

/-- The two runs came out with the same, `k` bytes apart. -/
structure Parallel {α : Type} (k : Nat) (x y : α × State) : Prop where
  outcome : y.1 = x.1
  shifted : x.2.Shifted k y.2

theorem Library.run_inStep (lib : Library) (k : Nat) (r : RuleRef) {s t : State}
    (hst : s.Shifted k t) : Parallel k (lib.run r s) (lib.run r t) := by
  have hruns := run_mirrored (Translation.renumbers_further k lib) r hst
  have hsame : Option.map (Translation.further k).derivation = id := by
    funext outcome
    cases outcome with
    | none => rfl
    | some d => exact congrArg some (Translation.derivation_further k d)
  refine ⟨?_, hruns.translated⟩
  have houtcome := hruns.outcome
  rw [hsame] at houtcome
  exact houtcome

end Peg
