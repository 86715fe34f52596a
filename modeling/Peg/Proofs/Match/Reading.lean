import Peg.Match.Reading
import Peg.Proofs.Match.View
import Peg.Proofs.Parse.Derived

/-!
# Views and match trees

A view that shows a derivation shows the match tree that the derivation is read as. So the events of a
derivation are decoded as that derivation wherever they stand, and those of a successful parse as its
match. Main statement: `View.Decodes.shows`.
-/

namespace Peg

namespace Match

theorem withMembers_node (node : Node) (children : List Match) (e : Extension) :
    (withMembers node children e).node = node := by
  unfold withMembers
  rfl

theorem withMembers_children (node : Node) (children : List Match) (e : Extension) :
    (withMembers node children e).children = children := by
  unfold withMembers
  rfl

section OfDerivation

variable (lib : Library) (source : List Char) (place : Place)

theorem ofDerivationIn_eq (whole : Derivation) (outer : List RuleRef) (d : Derivation) :
    ofDerivationIn lib source place whole outer d =
      withMembers
        { source, place, derivation := whole, primary := d.primary,
          names := lib.chainNames (outer ++ d.chain) }
        (ofDerivations lib source place d.parts) (lib.chainExtension (outer ++ d.chain)) := by
  cases d with
  | branch r n parts =>
      rw [ofDerivationIn]
      rfl
  | wrapped r inner =>
      have hinner := ofDerivationIn_eq whole (outer ++ [r]) inner
      rw [List.append_assoc] at hinner
      exact hinner

theorem ofDerivation_eq (d : Derivation) :
    ofDerivation lib source place d =
      withMembers
        { source, place, derivation := d, primary := d.primary, names := lib.chainNames d.chain }
        (ofDerivations lib source place d.parts) (lib.chainExtension d.chain) :=
  ofDerivationIn_eq lib source place d [] d

theorem ofDerivation_node (d : Derivation) :
    (ofDerivation lib source place d).node =
      { source, place, derivation := d, primary := d.primary, names := lib.chainNames d.chain } := by
  rw [ofDerivation_eq, withMembers_node]

theorem ofDerivation_children (d : Derivation) :
    (ofDerivation lib source place d).children = ofDerivations lib source place d.parts := by
  rw [ofDerivation_eq, withMembers_children]

theorem ofDerivations_cons (d : Derivation) (ds : List Derivation) :
    ofDerivations lib source place (d :: ds) =
      ofDerivation lib source place d ::
        ofDerivations lib source (place.advance d.length) ds := by
  simp [ofDerivations, ofDerivation]

end OfDerivation

end Match

namespace View

/-- The view tells of the match what does not depend on its children. -/
structure Agrees (lib : Library) (v : View) (m : Match) : Prop where
  offset : v.offset = m.offset
  length : v.length? = some m.length
  events : v.ownEvents = m.events
  rule : v.rule? = some m.rule
  names : lib.chainNames v.chain = m.names

mutual

/-- The view shows the match, and the nodes below it show its children. -/
inductive Shows (lib : Library) : View → Match → Prop
  | node {v m children} : v.Agrees lib m → v.children? lib = some children →
      ShowsAll lib children m.children → Shows lib v m

/-- The views show the matches one by one. -/
inductive ShowsAll (lib : Library) : List View → List Match → Prop
  | nil : ShowsAll lib [] []
  | cons {v m vs ms} : Shows lib v m → ShowsAll lib vs ms → ShowsAll lib (v :: vs) (m :: ms)

end

variable {lib : Library}

theorem Tells.agrees {v : View} {d : Derivation} {place : Place}
    (h : v.Tells lib d place.offset) (source : List Char) :
    v.Agrees lib (.ofDerivation lib source place d) := by
  have hnode := Match.ofDerivation_node lib source place d
  constructor
  · rw [h.offset, Match.offset, hnode]
  · rw [h.length, Match.length, hnode]
  · rw [h.events, Match.events, hnode]
  · rw [h.rule, Match.rule, hnode]
  · rw [h.chain, Match.names, hnode]
    rfl

/-- A view of a derivation is a view of the match that it is read as. -/
theorem Decodes.shows {v : View} {d : Derivation} {place : Place}
    (h : v.Decodes lib d place.offset) (source : List Char) :
    v.Shows lib (.ofDerivation lib source place d) := by
  refine @Decodes.rec lib
    (fun v d offset _ => ∀ place : Place, place.offset = offset →
      v.Shows lib (.ofDerivation lib source place d))
    (fun vs ds offset _ => ∀ place : Place, place.offset = offset →
      ShowsAll lib vs (Match.ofDerivations lib source place ds))
    ?_ ?_ ?_ v d place.offset h place rfl
  · intro v d offset children htells hchildren _ ih place hplace
    subst hplace
    refine .node (htells.agrees source) hchildren ?_
    rw [Match.ofDerivation_children]
    exact ih place rfl
  · intro offset place _
    simp only [Match.ofDerivations]
    exact .nil
  · intro v d vs ds offset _ _ ih ih' place hplace
    rw [Match.ofDerivations_cons]
    refine .cons (ih place hplace) (ih' _ ?_)
    simp only [Place.advance, hplace]

/-- The view of the events of a derivation, wherever they stand, shows the derivation and the match
that the events tell of. The events of a successful parse are those of a derivation, and the view of
them shows the match. -/
theorem decodes_events (lib : Library) :
    (∀ d : Derivation, d.Wraps lib.isWrapper →
      (∀ (before after : Array Event) (offset : Nat),
        (ofRange lib (before ++ d.events ++ after) before.size (before.size + d.events.size - 1)
          offset).Decodes lib d offset) ∧
      ∀ (source : List Char) (place : Place),
        (ofEvents lib d.events place.offset).Decodes lib d place.offset ∧
        ∃ m, Match.ofEvents? lib source place d.events.toList = some m ∧
          (ofEvents lib d.events place.offset).Shows lib m) ∧
    (lib.Built → ∀ g text options m, lib.parse g text options = .ok m →
      ∃ d, d.Wraps lib.isWrapper ∧ m.events = d.events ∧
        (ofEvents lib m.events m.offset).Decodes lib d m.offset ∧
        (ofEvents lib m.events m.offset).Shows lib m) := by
  constructor
  · intro d hd
    refine ⟨ofRange_append_decodes hd, fun source place => ?_⟩
    have hdecodes := ofEvents_decodes hd place.offset
    refine ⟨hdecodes, .ofDerivation lib source place d, ?_, hdecodes.shows source⟩
    rw [Match.ofEvents?, Derivation.ofEvents?_events hd]
    rfl
  · intro hlib g text options m h
    obtain ⟨root, p, d, -, hderives, rfl, -⟩ := Library.exists_derives_of_parse hlib.closed h
    have hnode := Match.ofDerivation_node lib text.toList p d
    have hdecodes := ofEvents_decodes hderives.wraps p.offset
    refine ⟨d, hderives.wraps, ?_, ?_⟩
    · rw [Match.events, hnode]
    · rw [Match.events, Match.offset, hnode]
      exact ⟨hdecodes, hdecodes.shows text.toList⟩

/-- A pair of brackets between the events of others, and a parse of two pairs. -/
theorem decodes_events_brackets :
    (∃ d : Derivation, d.Wraps bracketLibrary.isWrapper ∧ d.parts.length = 3 ∧
      (ofRange bracketLibrary (#[.opened ⟨0, 4⟩] ++ d.events ++ #[.closed, .length 2]) 1
        (1 + d.events.size - 1) 5).Decodes bracketLibrary d 5) ∧
      ∃ m, bracketLibrary.parse 0 "(())" {} = .ok m ∧
        (ofEvents bracketLibrary m.events m.offset).Shows bracketLibrary m := by
  constructor
  · let d : Derivation :=
      .branch ⟨0, 3⟩ 2
        [.branch ⟨0, 0⟩ 1 [], .wrapped ⟨0, 1⟩ (.branch ⟨0, 4⟩ 0 []), .branch ⟨0, 2⟩ 1 []]
    have hd : d.Wraps bracketLibrary.isWrapper := by
      simp only [d, Derivation.Wraps, Derivation.WrapsAll]
      decide +kernel
    exact ⟨d, hd, rfl, ((decodes_events bracketLibrary).1 d hd).1 #[.opened ⟨0, 4⟩] _ 5⟩
  · have hok : (bracketLibrary.parse 0 "(())" {}).toOption.isSome = true := by decide +kernel
    cases hparse : bracketLibrary.parse 0 "(())" {} with
    | error e =>
        rw [hparse] at hok
        cases hok
    | ok m =>
        obtain ⟨d, -, -, -, hshows⟩ :=
          (decodes_events bracketLibrary).2 bracketLibrary_built 0 "(())" {} m hparse
        exact ⟨m, rfl, hshows⟩

end View

end Peg
