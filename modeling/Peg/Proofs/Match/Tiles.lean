import Peg.Proofs.Match.Reading

/-!
# Match trees tile the text

Every node of a match tree covers a piece of the text between two places, and its children, if it has
any, cover the same piece one after the other. So the texts of the leaves make up the text of the
match. Main statements: `Match.placed_nodes` and `Match.join_leaves_ofDerivation`.
-/

namespace Peg

theorem takeBytes_zero (text : List Char) : takeBytes 0 text = [] :=
  takeBytes_byteLength_append [] text

theorem takeBytes_add {m : Nat} {text : List Char} (hm : Splits m text) (n : Nat) :
    takeBytes (m + n) text = takeBytes m text ++ takeBytes n (dropBytes m text) := by
  obtain ⟨front, back, rfl, rfl⟩ := hm
  rw [takeBytes_byteLength_append, dropBytes_byteLength_append]
  induction front with
  | nil => simp
  | cons c front ih =>
      have hle : c.utf8Size ≤ c.utf8Size + byteLength front + n := by omega
      have hrest : c.utf8Size + byteLength front + n - c.utf8Size = byteLength front + n := by omega
      simp only [byteLength_cons, List.cons_append, takeBytes, hle, if_true, hrest, ih]

theorem Place.IsIn.offset_add_rest {p : Place} {text : List Char} (h : p.IsIn text) :
    p.offset + byteLength p.rest = byteLength text := by
  obtain ⟨before, htext, hoffset⟩ := h
  rw [htext, byteLength_append, hoffset]

/-! ## Derivations that fit the text -/

namespace Derivation

mutual

/-- The derivation takes up whole characters from the place on, and the parts, if it has any, take up
the same. -/
def Fits : Place → Derivation → Prop
  | p, branch _ n parts =>
    Splits n p.rest ∧ (parts ≠ [] → totalLength parts = n) ∧ FitsAll p parts
  | p, wrapped _ inner => Fits p inner

/-- Each of the derivations fits the text from where the one before it ends. -/
def FitsAll : Place → List Derivation → Prop
  | _, [] => True
  | p, d :: ds => Fits p d ∧ FitsAll (p.advance d.length) ds

end

theorem Fits.splits {p : Place} {d : Derivation} (h : Fits p d) : Splits d.length p.rest := by
  cases d with
  | branch r n parts => exact h.1
  | wrapped r inner =>
      have hinner : Fits p inner := h
      have hsplits := Fits.splits hinner
      exact hsplits

theorem Fits.totalLength_parts {p : Place} {d : Derivation} (h : Fits p d) (hparts : d.parts ≠ []) :
    totalLength d.parts = d.length := by
  cases d with
  | branch r n parts => exact h.2.1 hparts
  | wrapped r inner =>
      have hinner : Fits p inner := h
      have htotal := Fits.totalLength_parts hinner hparts
      exact htotal

theorem Fits.parts {p : Place} {d : Derivation} (h : Fits p d) : FitsAll p d.parts := by
  cases d with
  | branch r n parts => exact h.2.2
  | wrapped r inner =>
      have hinner : Fits p inner := h
      have hall := Fits.parts hinner
      exact hall

end Derivation

namespace Derivability

variable {D : Derivability} {r : RuleRef} {rs : List RuleRef} {p : Place} {d : Derivation}
  {ds : List Derivation}

theorem Row.fitsAll (hD : ∀ {r p d}, D r p d → Derivation.Fits p d) (h : D.Row rs p ds) :
    Derivation.FitsAll p ds := by
  induction h with
  | nil => trivial
  | cons hd _ ih => exact ⟨hD hd, ih⟩

theorem Formed.fits (hD : ∀ {r p d}, D r p d → Derivation.Fits p d) {kind : Kind RuleRef}
    (h : D.Formed kind r p d) : Derivation.Fits p d := by
  have hcovers : D.Covers := fun _ _ _ hd => (hD hd).splits
  cases h with
  | terminal hn => exact ⟨Matcher.matchAt_splits hn, fun hne => absurd rfl hne, trivial⟩
  | text hn => exact ⟨literalAt_splits hn, fun hne => absurd rfl hne, trivial⟩
  | sequence hrow => exact ⟨hrow.covers hcovers, fun _ => rfl, hrow.fitsAll hD⟩
  | rep hrow _ _ => exact ⟨hrow.covers hcovers, fun _ => rfl, hrow.fitsAll hD⟩
  | ahead | notAhead => exact ⟨Splits.zero _, fun hne => absurd rfl hne, trivial⟩
  | upTo _ hn => exact ⟨hn, fun hne => absurd rfl hne, trivial⟩
  | choice _ h | ref h | inherited h | label h =>
      have hinner := hD h
      exact hinner

end Derivability

theorem Library.Derives.fits {lib : Library} {r : RuleRef} {p : Place} {d : Derivation}
    (h : lib.Derives r p d) : d.Fits p := by
  refine h.induct (motive := fun _ p d => Derivation.Fits p d) ?_
  intro r rule p d _ hk
  exact hk.fits fun hd => hd.2

/-! ## Nodes, leaves and their texts -/

namespace Match

mutual

/-- The match and everything below it, each node before its children. -/
def nodes : Match → List Match
  | mk node call children => mk node call children :: nodesAll children

def nodesAll : List Match → List Match
  | [] => []
  | m :: ms => nodes m ++ nodesAll ms

end

mutual

def leaves : Match → List Match
  | mk node call children =>
    if children.isEmpty then [mk node call children] else leavesAll children

def leavesAll : List Match → List Match
  | [] => []
  | m :: ms => leaves m ++ leavesAll ms

end

/-- The matches follow one another without gaps from an offset to another one. -/
def Tile : Nat → List Match → Nat → Prop
  | start, [], finish => start = finish
  | start, m :: ms, finish => m.offset = start ∧ Tile m.finish ms finish

/-- The match begins and ends at places of the text and has the text between them, which its children,
if it has any, divide among them. -/
structure Placed (source : List Char) (m : Match) : Prop where
  text : ∃ p q, Place.at? source m.offset = some p ∧ Place.at? source m.finish = some q ∧
    p.rest = m.text.toList ++ q.rest
  children : m.children ≠ [] → Tile m.offset m.children m.finish

theorem nodes_eq (m : Match) : m.nodes = m :: nodesAll m.children := by
  cases m
  simp [nodes, children]

theorem leaves_of_children_eq_nil {m : Match} (h : m.children = []) : m.leaves = [m] := by
  cases m
  simp_all [leaves, children]

theorem leaves_of_children_ne_nil {m : Match} (h : m.children ≠ []) :
    m.leaves = leavesAll m.children := by
  cases m
  simp_all [leaves, children]

def row (ms : List Match) : List Char := ms.flatMap fun m => m.text.toList

section OfDerivation

variable (lib : Library) (source : List Char)

theorem offset_ofDerivation (p : Place) (d : Derivation) :
    (ofDerivation lib source p d).offset = p.offset := by
  rw [offset, ofDerivation_node]

theorem finish_ofDerivation (p : Place) (d : Derivation) :
    (ofDerivation lib source p d).finish = (p.advance d.length).offset := by
  rw [finish, offset, length, ofDerivation_node]
  rfl

theorem text_ofDerivation (p : Place) (d : Derivation) :
    (ofDerivation lib source p d).text.toList = takeBytes d.length p.rest := by
  simp [text, length, ofDerivation_node]

theorem parts_ne_nil {p : Place} {d : Derivation}
    (h : (ofDerivation lib source p d).children ≠ []) : d.parts ≠ [] := by
  intro hparts
  rw [ofDerivation_children, hparts] at h
  exact h (by simp [ofDerivations])

/-! ## Every node is placed -/

theorem tile_ofDerivations (p : Place) (ds : List Derivation) :
    Tile p.offset (ofDerivations lib source p ds) (p.offset + Derivation.totalLength ds) := by
  induction ds generalizing p with
  | nil => simp [ofDerivations, Tile, Derivation.totalLength]
  | cons d ds ih =>
      have hrest := ih (p.advance d.length)
      rw [ofDerivations_cons]
      refine ⟨offset_ofDerivation lib source p d, ?_⟩
      rw [finish_ofDerivation]
      simp only [Place.advance, Derivation.totalLength, Nat.add_assoc] at hrest ⊢
      exact hrest

theorem placed_ofDerivation {p : Place} {d : Derivation} (h : d.Fits p) (hp : p.IsIn source) :
    (ofDerivation lib source p d).Placed source where
  text := by
    refine ⟨p, p.advance d.length, ?_, ?_, ?_⟩
    · exact Place.at?_eq_some_iff.2 ⟨hp, (offset_ofDerivation lib source p d).symm⟩
    · exact Place.at?_eq_some_iff.2
        ⟨hp.advance h.splits, (finish_ofDerivation lib source p d).symm⟩
    · rw [text_ofDerivation]
      exact (takeBytes_append_dropBytes d.length p.rest).symm
  children hne := by
    have htotal := h.totalLength_parts (parts_ne_nil lib source hne)
    have htile := tile_ofDerivations lib source p d.parts
    rw [htotal] at htile
    rw [offset_ofDerivation, finish_ofDerivation, ofDerivation_children]
    exact htile

mutual

theorem placed_parts (d : Derivation) {p : Place} (h : d.Fits p) (hp : p.IsIn source) :
    ∀ n ∈ nodesAll (ofDerivations lib source p d.parts), n.Placed source := by
  cases d with
  | branch r n parts => exact placed_all parts h.2.2 hp
  | wrapped r inner =>
      have hinner : inner.Fits p := h
      have hplaced := placed_parts inner hinner hp
      exact hplaced

theorem placed_all (ds : List Derivation) {p : Place} (h : Derivation.FitsAll p ds)
    (hp : p.IsIn source) : ∀ n ∈ nodesAll (ofDerivations lib source p ds), n.Placed source := by
  cases ds with
  | nil =>
      intro n hn
      simp [ofDerivations, nodesAll] at hn
  | cons d ds =>
      obtain ⟨hd, hds⟩ := h
      have hrest := placed_all ds hds (hp.advance hd.splits)
      intro n hn
      rw [ofDerivations_cons, nodesAll, nodes_eq, ofDerivation_children] at hn
      rcases List.mem_append.1 hn with hn | hn
      · rcases List.mem_cons.1 hn with rfl | hn
        · exact placed_ofDerivation lib source hd hp
        · exact placed_parts d hd hp n hn
      · exact hrest n hn

end

theorem placed_nodes {p : Place} {d : Derivation} (h : d.Fits p) (hp : p.IsIn source) :
    ∀ n ∈ (ofDerivation lib source p d).nodes, n.Placed source := by
  intro n hn
  rw [nodes_eq, ofDerivation_children] at hn
  rcases List.mem_cons.1 hn with rfl | hn
  · exact placed_ofDerivation lib source h hp
  · exact placed_parts lib source d h hp n hn

/-! ## The leaves have the text -/

theorem row_leaves_of_parts {p : Place} {d : Derivation} (h : d.Fits p)
    (hparts : row (leavesAll (ofDerivations lib source p d.parts)) =
      takeBytes (Derivation.totalLength d.parts) p.rest) :
    row (ofDerivation lib source p d).leaves = takeBytes d.length p.rest := by
  by_cases hchildren : (ofDerivation lib source p d).children = []
  · rw [leaves_of_children_eq_nil hchildren]
    simp [row, text_ofDerivation]
  · rw [leaves_of_children_ne_nil hchildren, ofDerivation_children, hparts,
      h.totalLength_parts (parts_ne_nil lib source hchildren)]

mutual

theorem row_leaves_parts (d : Derivation) {p : Place} (h : d.Fits p) :
    row (leavesAll (ofDerivations lib source p d.parts)) =
      takeBytes (Derivation.totalLength d.parts) p.rest := by
  cases d with
  | branch r n parts => exact row_leavesAll parts h.2.2
  | wrapped r inner =>
      have hinner : inner.Fits p := h
      have hrow := row_leaves_parts inner hinner
      exact hrow

theorem row_leavesAll (ds : List Derivation) {p : Place} (h : Derivation.FitsAll p ds) :
    row (leavesAll (ofDerivations lib source p ds)) =
      takeBytes (Derivation.totalLength ds) p.rest := by
  cases ds with
  | nil => simp [ofDerivations, leavesAll, row, Derivation.totalLength, takeBytes_zero]
  | cons d ds =>
      obtain ⟨hd, hds⟩ := h
      have hfirst := row_leaves_of_parts lib source hd (row_leaves_parts d hd)
      have hrest := row_leavesAll ds hds
      rw [ofDerivations_cons, leavesAll, Derivation.totalLength, takeBytes_add hd.splits]
      simp only [row, List.flatMap_append] at hfirst hrest ⊢
      rw [hfirst, hrest]
      rfl

end

theorem join_leaves_ofDerivation {p : Place} {d : Derivation} (h : d.Fits p) :
    String.join ((ofDerivation lib source p d).leaves.map Match.text) =
      (ofDerivation lib source p d).text := by
  have hrow := row_leaves_of_parts lib source h (row_leaves_parts lib source d h)
  rw [← String.toList_inj, text_ofDerivation, ← hrow, String.toList_join]
  simp [row, List.flatMap_def, Function.comp_def]

end OfDerivation

end Match

namespace Library

theorem placed_of_parse {lib : Library} (hlib : lib.Built) {g : Nat} {text : String}
    {options : ParseOptions} {m : Match} (h : lib.parse g text options = .ok m) :
    ∀ n ∈ m.nodes, n.Placed text.toList := by
  obtain ⟨root, p, d, hplace, hderives, rfl, -⟩ := exists_derives_of_parse hlib.closed h
  exact Match.placed_nodes lib text.toList hderives.fits (Place.at?_eq_some_iff.1 hplace).1

/-- The match of a successful parse begins at the start offset. It and all nodes below it are placed
in the text, the texts of its leaves make up its own, and that is the rest of the text if all of it
is to be matched. -/
theorem parse_tiles {lib : Library} (hlib : lib.Built) {g : Nat} {text : String}
    {options : ParseOptions} {m : Match} (h : lib.parse g text options = .ok m) :
    m.offset = options.startOffset ∧ (∀ n ∈ m.nodes, n.Placed text.toList) ∧
      String.join (m.leaves.map Match.text) = m.text ∧
      (options.requireFullConsumption = true →
        ∃ p, Place.at? text.toList options.startOffset = some p ∧ m.text.toList = p.rest) := by
  have hplaced := placed_of_parse hlib h
  obtain ⟨root, p, d, hplace, hderives, rfl, hfull⟩ := exists_derives_of_parse hlib.closed h
  obtain ⟨hp, hoffset⟩ := Place.at?_eq_some_iff.1 hplace
  have hfits := hderives.fits
  refine ⟨?_, hplaced, Match.join_leaves_ofDerivation lib text.toList hfits, fun hrequired => ⟨p, hplace, ?_⟩⟩
  · rw [Match.offset_ofDerivation, hoffset]
  · have hrest := hp.offset_add_rest
    have hend := hfull hrequired
    have hlength : d.length = byteLength p.rest := by omega
    have htake := takeBytes_byteLength_append p.rest []
    rw [List.append_nil] at htake
    rw [Match.text_ofDerivation, hlength, htake]

/-- Two pairs of brackets inside each other, from the second character of a text on. -/
theorem parse_tiles_brackets :
    ∃ m, bracketLibrary.parse 0 "é(())" { startOffset := 2, memoize := false } = .ok m ∧
      m.offset = 2 ∧ (∀ n ∈ m.nodes, n.Placed "é(())".toList) ∧
      String.join (m.leaves.map Match.text) = m.text := by
  have hok : (bracketLibrary.parse 0 "é(())"
      { startOffset := 2, memoize := false }).toOption.isSome = true := by decide +kernel
  cases hparse : bracketLibrary.parse 0 "é(())" { startOffset := 2, memoize := false } with
  | error e =>
      rw [hparse] at hok
      cases hok
  | ok m =>
      obtain ⟨hoffset, hplaced, hleaves, -⟩ := parse_tiles bracketLibrary_built hparse
      exact ⟨m, rfl, hoffset, hplaced, hleaves⟩

end Library

end Peg
