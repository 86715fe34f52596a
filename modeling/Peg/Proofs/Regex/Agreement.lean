import Peg.Proofs.Regex.Closed
import Peg.Proofs.Regex.Searching

/-!
# Searches in automata that share states

Two automata that have the same states below a number, none of which leads beyond, list the same where
they start from these states. A list with less preferred states behind leads a search to the same end,
if one is found without them: the search may meet other ends before, but a state that accepts cuts off
what is behind it. Main statement: `Automaton.Agrees.searchFrom_eq_some`.

A search that goes ahead lists what a search in its place does where the character before a point
decides every condition (`Automaton.findEnd_eq_search`).
-/

namespace Peg

/-- The character before a point decides whether the condition holds. -/
def Look.looksBack : Look → Bool
  | .textStart => true
  | .lineStart crlf => !crlf
  | .word .startHalf _ => true
  | _ => false

theorem Look.holdsAfter_eq {look : Look} (h : look.looksBack = true) (before after : Option Char) :
    look.holdsAfter before = look.holds before after := by
  cases look with
  | textStart => rfl
  | lineStart crlf =>
      cases crlf with
      | true => cases h
      | false => simp [holdsAfter, holds]
  | word condition unicode =>
      cases condition with
      | startHalf => rfl
      | _ => cases h
  | _ => cases h

namespace Automaton

open Regex (Point)

variable {a b : Automaton} {k m n offset e fuel fuel' : Nat} {c : Char} {holds : Look → Bool}
  {seen seen' : Std.TreeSet Nat} {stack more found earlier states listed extra : List Nat}
  {before : Option Char} {best best' : Option Nat} {text : List Char}

/-! ## Visits -/

theorem visit_append (a : Automaton) (holds : Look → Bool) (fuel : Nat) (seen : Std.TreeSet Nat)
    (stack found earlier : List Nat) : a.visit holds fuel seen stack (found ++ earlier) =
      a.visit holds fuel seen stack found ++ earlier := by
  induction fuel generalizing seen stack found with
  | zero => rfl
  | succ fuel ih =>
      cases stack with
      | nil => rfl
      | cons n stack =>
          cases hseen : seen.contains n with
          | true =>
              rw [visit_seen hseen, visit_seen hseen]
              exact ih _ _ _
          | false =>
              rw [visit_new hseen, visit_new hseen, ← ih]
              split <;> rfl

theorem exists_visit_eq (a : Automaton) (holds : Look → Bool) (fuel : Nat) (seen : Std.TreeSet Nat)
    (stack found : List Nat) : ∃ later, a.visit holds fuel seen stack found = later ++ found :=
  ⟨_, visit_append a holds fuel seen stack [] found⟩

/-- Two automata have the same states below a number, and none of them leads beyond. -/
structure Agrees (a b : Automaton) (k : Nat) : Prop where
  same : ∀ n < k, b.state n = a.state n
  within : ∀ n < k, (a.state n).Within (fun _ => True) k

namespace Agrees

theorem lt_of_mem_waysOf (h : Agrees a b k) (hn : n < k) : ∀ m ∈ a.waysOf holds n, m < k := by
  have hwithin := h.within n hn
  unfold waysOf
  cases hstate : a.state n with
  | look condition next =>
      rw [hstate] at hwithin
      cases holds condition <;> simp [hwithin.2]
  | split first second =>
      rw [hstate] at hwithin
      simp [hwithin.1, hwithin.2]
  | _ => simp

/-- From states that two automata share they list the same, and one that has more on the stack lists
more. -/
theorem exists_visit (h : Agrees a b k) (hstack : ∀ n ∈ stack, n < k)
    (hseen : ∀ n < k, seen'.contains n = seen.contains n)
    (hfuel : stack.length + 2 * (a.unseen seen).card ≤ fuel)
    (hfuel' : (stack ++ more).length + 2 * (b.unseen seen').card ≤ fuel') :
    ∃ later, b.visit holds fuel' seen' (stack ++ more) found =
      later ++ a.visit holds fuel seen stack found ∧ (more = [] → later = []) := by
  induction fuel generalizing fuel' seen seen' stack found with
  | zero =>
      obtain rfl : stack = [] := List.eq_nil_of_length_eq_zero (by omega)
      obtain ⟨later, hlater⟩ := exists_visit_eq b holds fuel' seen' more found
      refine ⟨later, hlater, fun hmore => ?_⟩
      simpa [hmore, visit_nil] using hlater
  | succ fuel ih =>
      cases stack with
      | nil =>
          obtain ⟨later, hlater⟩ := exists_visit_eq b holds fuel' seen' more found
          refine ⟨later, hlater, fun hmore => ?_⟩
          simpa [hmore, visit_nil] using hlater
      | cons n stack =>
          obtain ⟨hn, hrest⟩ := List.forall_mem_cons.1 hstack
          obtain ⟨fuel', rfl⟩ : ∃ m, fuel' = m + 1 :=
            Nat.exists_eq_succ_of_ne_zero (by
              rw [List.cons_append, List.length_cons] at hfuel'
              omega)
          cases hnew : seen.contains n with
          | true =>
              have hnew' : seen'.contains n = true := (hseen n hn).trans hnew
              rw [List.cons_append, List.length_cons] at hfuel'
              rw [List.length_cons] at hfuel
              rw [List.cons_append, visit_seen hnew, visit_seen hnew']
              exact ih hrest hseen (by omega) (by omega)
          | false =>
              have hnew' : seen'.contains n = false := (hseen n hn).trans hnew
              have hways : b.waysOf holds n = a.waysOf holds n := by
                unfold waysOf
                rw [h.same n hn]
              have hlisted : b.IsListed n = a.IsListed n := by
                unfold IsListed
                rw [h.same n hn]
              have hstack' : ∀ m ∈ a.waysOf holds n ++ stack, m < k := fun m hm =>
                (List.mem_append.1 hm).elim (h.lt_of_mem_waysOf hn m) (hrest m)
              have hseen' : ∀ m < k, (seen'.insert n).contains m = (seen.insert n).contains m := by
                intro m hm
                rw [Std.TreeSet.contains_insert, Std.TreeSet.contains_insert, hseen m hm]
              have hleft : (a.waysOf holds n ++ stack ++ more).length +
                  2 * (b.unseen (seen'.insert n)).card ≤ fuel' := by
                rw [List.append_assoc, ← hways]
                exact fuel_of_new hfuel' hnew'
              rw [List.cons_append, visit_new hnew, visit_new hnew', hways, hlisted,
                ← List.append_assoc]
              exact ih hstack' hseen' (fuel_of_new hfuel hnew) hleft

theorem exists_reach (h : Agrees a b k) (holds : Look → Bool) (more : List Nat)
    (hstates : ∀ n ∈ states, n < k) : ∃ extra,
      b.reach holds (states ++ more) = a.reach holds states ++ extra ∧ (more = [] → extra = []) := by
  obtain ⟨later, hlater, hnil⟩ :
      ∃ later, b.visit holds ((states ++ more).length + 2 * b.states.size) ∅ (states ++ more) [] =
        later ++ a.visit holds (states.length + 2 * a.states.size) ∅ states [] ∧
          (more = [] → later = []) :=
    h.exists_visit hstates (fun _ _ => rfl) (by rw [card_unseen_empty]) (by rw [card_unseen_empty])
  refine ⟨later.reverse, ?_, fun hmore => by rw [hnil hmore, List.reverse_nil]⟩
  unfold reach
  rw [hlater, List.reverse_append]

open Classical in
theorem exists_reach_cons (h : Agrees a b k) (holds : Look → Bool) (more : List Nat) (hn : k ≤ n)
    (hways : b.waysOf holds n = m :: more) (hm : m < k) :
    ∃ extra, b.reach holds [n] =
        (if b.IsListed n then [n] else []) ++ (a.reach holds [m] ++ extra) ∧
      (more = [] → extra = []) := by
  -- the state is none of those shared, so that it was visited makes no difference to them
  have hseen : ∀ x < k, ((∅ : Std.TreeSet Nat).insert n).contains x =
      (∅ : Std.TreeSet Nat).contains x := by
    intro x hx
    have hne : n ≠ x := by omega
    simp [Std.TreeSet.contains_insert, hne]
  have hfuel : [n].length + 2 * (b.unseen ∅).card ≤ 2 * b.states.size + 1 := by
    rw [card_unseen_empty, List.length_singleton]
    omega
  have hleft : (b.waysOf holds n ++ []).length + 2 * (b.unseen ((∅ : Std.TreeSet Nat).insert n)).card ≤
      2 * b.states.size := fuel_of_new hfuel rfl
  rw [hways, List.append_nil] at hleft
  obtain ⟨later, hlater, hnil⟩ :
      ∃ later, b.visit holds (2 * b.states.size) ((∅ : Std.TreeSet Nat).insert n) ([m] ++ more)
          (if b.IsListed n then [n] else []) =
        later ++ a.visit holds ([m].length + 2 * a.states.size) ∅ [m]
          (if b.IsListed n then [n] else []) ∧ (more = [] → later = []) :=
    h.exists_visit (List.forall_mem_singleton.2 hm) hseen (by rw [card_unseen_empty]) hleft
  have happend := visit_append a holds ([m].length + 2 * a.states.size) ∅ [m] []
    (if b.IsListed n then [n] else [])
  rw [List.nil_append] at happend
  rw [happend, List.singleton_append] at hlater
  refine ⟨later.reverse, ?_, fun hmore => by rw [hnil hmore, List.reverse_nil]⟩
  unfold reach
  rw [List.length_singleton, Nat.add_comm, visit_new rfl, hways, List.append_nil, hlater]
  split <;> simp

theorem lt_of_mem_reach (h : Agrees a b k) (holds : Look → Bool) (hstates : ∀ n ∈ states, n < k) :
    ∀ n ∈ a.reach holds states, n < k := by
  intro n hn
  obtain ⟨hlisted, s, hs, hpath⟩ := mem_reach_iff.1 hn
  clear hn hlisted
  induction hpath with
  | refl => exact hstates s hs
  | tail _ hlast ih => exact h.lt_of_mem_waysOf ih _ (mem_waysOf_iff.2 hlast)

theorem lt_of_mem_follow (h : Agrees a b k) (hlisted : ∀ n ∈ listed, n < k) :
    ∀ n ∈ a.follow c listed, n < k := by
  intro m hm
  obtain ⟨n, hn, s, hstate, _⟩ := exists_of_mem_follow hm
  have hwithin := h.within n (hlisted n hn)
  rw [hstate] at hwithin
  exact hwithin

theorem accepts_eq (h : Agrees a b k) (hlisted : ∀ n ∈ listed, n < k) :
    b.accepts listed = a.accepts listed := by
  induction listed with
  | nil => rfl
  | cons n rest ih =>
      obtain ⟨hn, hrest⟩ := List.forall_mem_cons.1 hlisted
      have ih : rest.any (b.state · == .accept) = rest.any (a.state · == .accept) := ih hrest
      simp only [accepts, List.any_cons, h.same n hn, ih]

theorem follow_eq (h : Agrees a b k) (hlisted : ∀ n ∈ listed, n < k) :
    b.follow c listed = a.follow c listed := by
  induction listed with
  | nil => rfl
  | cons n rest ih =>
      obtain ⟨hn, hrest⟩ := List.forall_mem_cons.1 hlisted
      simp only [follow, h.same n hn, ih hrest]

end Agrees

/-! ## Searches -/

theorem accepts_append :
    a.accepts (listed ++ extra) = (a.accepts listed || a.accepts extra) :=
  List.any_append

theorem follow_append :
    a.follow c (listed ++ extra) =
      a.follow c listed ++ if a.accepts listed then [] else a.follow c extra := by
  induction listed with
  | nil => rfl
  | cons n rest ih =>
      cases hstate : a.state n with
      | accept => simp [follow, accepts, hstate]
      | read s next =>
          have haccepts : a.accepts (n :: rest) = a.accepts rest := by simp [accepts, hstate]
          rw [haccepts]
          cases hc : s.contains c <;> simp [follow, hstate, hc, ih]
      | _ =>
          have haccepts : a.accepts (n :: rest) = a.accepts rest := by simp [accepts, hstate]
          simp [follow, hstate, ih, haccepts]

theorem searchFrom_nil : a.searchFrom [] offset best text = best := by
  cases text <;> rfl

/-- Less preferred states behind a list and a worse end before do not matter where an end is found
without them. -/
theorem Agrees.searchFrom_eq_some (h : Agrees a b k) (hlisted : ∀ n ∈ listed, n < k)
    (hfound : a.searchFrom listed offset best text = some e)
    (hworse : extra = [] ∧ best' = best ∨ best = none) :
    b.searchFrom (listed ++ extra) offset best' text = some e := by
  induction text generalizing listed extra offset best best' with
  | nil =>
      simp only [searchFrom, accepts_append, h.accepts_eq hlisted] at hfound ⊢
      cases haccepts : a.accepts listed with
      | true => simpa [haccepts] using hfound
      | false =>
          rw [haccepts] at hfound
          obtain ⟨rfl, rfl⟩ | rfl := hworse
          · exact hfound
          · cases hfound
  | cons c rest ih =>
      cases hempty : listed with
      | nil =>
          obtain ⟨rfl, rfl⟩ | rfl := hworse
          · rw [hempty, searchFrom_nil] at hfound
            rw [List.append_nil, searchFrom_nil, hfound]
          · rw [hempty, searchFrom_nil] at hfound
            cases hfound
      | cons n listed' =>
          rw [← hempty]
          have hcons : listed.isEmpty = false ∧ (listed ++ extra).isEmpty = false := by
            simp [hempty]
          simp only [searchFrom, hcons.1, hcons.2, Bool.false_eq_true, if_false] at hfound ⊢
          obtain ⟨extra', hextra, hnil⟩ := h.exists_reach (·.holds (some c) rest.head?)
            (if a.accepts listed then [] else b.follow c extra) (h.lt_of_mem_follow hlisted)
          rw [follow_append, h.follow_eq hlisted, h.accepts_eq hlisted, hextra]
          refine ih (h.lt_of_mem_reach _ (h.lt_of_mem_follow hlisted)) hfound ?_
          -- behind a state that accepts nothing is left, and its end is the best in both searches
          rw [accepts_append, h.accepts_eq hlisted]
          cases haccepts : a.accepts listed with
          | true => exact .inl ⟨hnil (by simp [haccepts]), rfl⟩
          | false =>
              obtain ⟨rfl, rfl⟩ | rfl := hworse
              · exact .inl ⟨hnil (by simp [haccepts, follow]), by simp [accepts]⟩
              · exact .inr rfl

theorem searchFrom_cons {condition : Look} {next : Nat} (hn : a.state n = .look condition next) :
    a.searchFrom (n :: listed) offset best text = a.searchFrom listed offset best text := by
  have haccepts : a.accepts (n :: listed) = a.accepts listed := by simp [accepts, hn]
  cases text with
  | nil => rw [searchFrom, searchFrom, haccepts]
  | cons c rest =>
      have hfollow : a.follow c (n :: listed) = a.follow c listed := by simp [follow, hn]
      cases listed with
      | nil =>
          rw [searchFrom, haccepts, hfollow, follow, reach_nil, searchFrom_nil, searchFrom_nil]
          rfl
      | cons m listed =>
          rw [searchFrom, searchFrom, haccepts, hfollow]
          rfl

/-! ## Conditions that are decided before -/

/-- The character before a point decides every condition that is set. -/
def LooksBack (a : Automaton) : Prop :=
  ∀ n condition next, a.state n = .look condition next → condition.looksBack = true

namespace LooksBack

theorem reach_eq (h : a.LooksBack) (before after : Option Char) (states : List Nat) :
    a.reach (·.holdsAfter before) states = a.reach (·.holds before after) states := by
  refine congrArg List.reverse (visit_congr fun n _ condition next hstate => ?_)
  exact Look.holdsAfter_eq (h n condition next hstate) before after

theorem resolve_eq (h : a.LooksBack) (before after : Option Char) (states : List Nat) :
    a.resolve before after states = states := by
  have hlate : a.isLate before after states = false := by
    refine List.any_eq_false.2 fun n _ => ?_
    split
    · next condition next hstate =>
        simp [Look.holdsAfter_eq (h n condition next hstate) before after]
    · exact Bool.false_ne_true
  unfold resolve
  rw [hlate]
  rfl

theorem searchAheadFrom_eq (h : a.LooksBack) {plain : Char → Bool} {matched : Bool}
    {result : Option Nat}
    (hahead : a.searchAheadFrom plain (a.reach (·.holdsAfter before) states) before matched offset
      best text = some result) :
    a.searchFrom (a.reach (holdsAt ⟨before, text⟩) states) offset best text = result := by
  have hreach := h.reach_eq before text.head? states
  induction text generalizing before states matched offset best with
  | nil =>
      rw [searchAheadFrom, h.resolve_eq, hreach] at hahead
      exact Option.some.inj hahead
  | cons c rest ih =>
      rw [searchAheadFrom, h.resolve_eq, hreach] at hahead
      split at hahead
      · next hempty =>
          rw [List.isEmpty_iff.1 (Bool.and_eq_true_iff.1 hempty).1, searchFrom_nil]
          exact Option.some.inj hahead
      · split at hahead
        · cases hahead
        · have hrest := ih hahead (h.reach_eq _ _ _)
          unfold searchFrom
          split
          · next hempty =>
              rw [List.isEmpty_iff.1 hempty, follow, reach_nil, searchFrom_nil] at hrest
              exact hrest
          · exact hrest

end LooksBack

/-- A search that goes ahead finds what a search in place finds. -/
theorem findEnd_eq_search (h : a.LooksBack) (text : List Char) : a.findEnd text = a.search text := by
  unfold findEnd
  split
  · next result hahead => exact (h.searchAheadFrom_eq hahead).symm
  · rfl

/-! ## Automata of expressions -/

theorem exists_mem_of_state {state : AutomatonState} (hn : a.state n = state)
    (hstate : state ≠ .fail) : state ∈ a.states := by
  unfold Automaton.state at hn
  cases hget : a.states[n]? with
  | none =>
      rw [hget] at hn
      exact absurd hn.symm hstate
  | some s =>
      rw [hget, Option.getD_some] at hn
      exact hn ▸ Array.mem_of_getElem? hget

theorem looksBack_ofRegex {r : Regex} (h : ∀ condition ∈ r.conditions, condition.looksBack = true) :
    (ofRegex r).LooksBack := by
  intro n condition next hstate
  have hmem := exists_mem_of_state hstate nofun
  exact ((closed_whole r h).within _ hmem).1

theorem agrees_of_extends {stage : Stage} (hclosed : stage.Closed fun _ => True)
    (ha : ∀ n < stage.1.size, a.states[n]? = stage.1[n]?)
    (hb : ∀ n < stage.1.size, b.states[n]? = stage.1[n]?) : Agrees a b stage.1.size where
  same n hn := by
    unfold Automaton.state
    rw [ha n hn, hb n hn]
  within n hn := by
    unfold Automaton.state
    rw [ha n hn, Array.getElem?_eq_getElem hn]
    exact hclosed.within _ (Array.getElem_mem hn)

end Automaton

end Peg
