import Mathlib.Data.List.Forall2
import Peg.Proofs.Match.Tiles
import Peg.Proofs.Parse.Report

/-!
# Views with every check

What a view tells, with the checks of a program that reads it off the buffer and cuts texts out of the
source: indices have to stand in the buffer, offsets have to be places of the source, sums may not
exceed its length and differences may not fall below zero. A view of a match of the source passes
them all, and so do the views of the nodes below it. Main statement: `View.Reads.nodes?`.
-/

namespace Peg

namespace Derivation

theorem Wraps.parts {isWrapper : RuleRef → Bool} {d : Derivation} (h : d.Wraps isWrapper) :
    WrapsAll isWrapper d.parts := by
  cases d with
  | branch r n parts => exact h.2
  | wrapped r inner =>
      have hinner := Wraps.parts h.2
      exact hinner

end Derivation

theorem Stands.size_le {buffer : Array Event} {d : Derivation} {i : Nat} (h : Stands buffer i d.flat) :
    i + d.flat.length ≤ buffer.size := by
  obtain ⟨front, hfront⟩ := d.exists_flat_eq_concat
  rw [hfront] at h ⊢
  obtain ⟨-, hlast, -⟩ := Stands.append_iff.1 h
  have hlt := (Array.getElem?_eq_some_iff.1 hlast).1
  rw [List.length_append, List.length_singleton]
  exact hlt

namespace View

/-! ## The checks -/

/-- The first index from `i` on where no wrapper opens, none if the buffer ends before. -/
def pastWrappers? (lib : Library) (events : Array Event) (i : Nat) : Option Nat :=
  if h : i < events.size then
    match events[i] with
    | .opened r => if lib.isWrapper r then pastWrappers? lib events (i + 1) else some i
    | _ => some i
  else none
termination_by events.size - i

/-- The node whose events stand from `start` to `last`. -/
def ofRange? (lib : Library) (events : Array Event) (start last offset : Nat) : Option View :=
  (pastWrappers? lib events start).map fun primary => { events, start, primary, last, offset }

def chain? (v : View) : Option (List RuleRef) :=
  (slice? v.events v.start (v.primary + 1)).map fun rules => rules.toList.filterMap Event.rule?

def names? (lib : Library) (v : View) : Option (List String) := v.chain?.map lib.chainNames

def hasName? (lib : Library) (name : String) (v : View) : Option Bool :=
  (v.names? lib).map (·.contains name)

def ownEvents? (v : View) : Option (Array Event) := slice? v.events v.start (v.last + 1)

def finish? (source : List Char) (v : View) : Option Nat := do
  sumWithin? (byteLength source) v.offset (← v.length?)

def text? (source : List Char) (v : View) : Option String := do
  (textBetween? source v.offset (← v.finish? source)).map String.ofList

def lineColumn? (source : List Char) (v : View) : Option (Nat × Nat) :=
  match Position.at? source v.offset with
  | some _ => Position.lineColumn? source v.offset
  | none => some (1, 1)

/-- `scan` with offsets that stay within the size of a source. -/
def scan? (lib : Library) (size : Nat) (events : Array Event) (close i offset : Nat)
    (opened : List (Nat × Nat)) (found : List View) : Option (List View) :=
  if i < close then
    match events[i]? with
    | some (.opened _) => scan? lib size events close (i + 1) offset ((i, offset) :: opened) found
    | some .closed =>
      match opened, events[i + 1]?.bind Event.bytes? with
      | (start, before) :: opened, some n => do
        let next ← sumWithin? size before n
        if opened.isEmpty then
          let node ← ofRange? lib events start (i + 1) before
          scan? lib size events close (i + 2) next opened (node :: found)
        else scan? lib size events close (i + 2) next opened found
      | _, _ => none
    | _ => none
  else some found.reverse
termination_by close - i

def below? (lib : Library) (source : List Char) (v : View) : Option (List View) := do
  let wrappers ← difference? v.primary v.start
  let inside ← difference? v.last (2 * wrappers)
  let close ← difference? inside 1
  scan? lib (byteLength source) v.events close (v.primary + 1) v.offset [] []

/-! ## Nodes end before the ones above them -/

section Last

variable {lib : Library} {events : Array Event}

theorem ofRange?_last {start last offset : Nat} {v : View}
    (h : ofRange? lib events start last offset = some v) : v.last = last := by
  obtain ⟨primary, -, rfl⟩ := Option.map_eq_some_iff.1 h
  rfl

theorem scan?_last {size close i offset : Nat} {opened : List (Nat × Nat)} {found nodes : List View}
    (h : scan? lib size events close i offset opened found = some nodes)
    (hfound : ∀ v ∈ found, v.last ≤ close) : ∀ v ∈ nodes, v.last ≤ close := by
  fun_induction scan? lib size events close i offset opened found with
  | case1 i offset opened found hi r hr ih => exact ih h hfound
  | case2 i offset found hi hclosed start before opened n hn ih ih' =>
      obtain ⟨next, -, h⟩ := Option.bind_eq_some_iff.1 h
      split at h
      · obtain ⟨node, hnode, h⟩ := Option.bind_eq_some_iff.1 h
        refine ih next node h (List.forall_mem_cons.2 ⟨?_, hfound⟩)
        rw [ofRange?_last hnode]
        exact hi
      · exact ih' next h hfound
  | case3 | case4 => cases h
  | case5 i offset opened found hi =>
      cases h
      exact fun v hv => hfound v (List.mem_reverse.1 hv)

theorem below?_last {source : List Char} {v : View} {nodes : List View}
    (h : v.below? lib source = some nodes) : ∀ node ∈ nodes, node.last < v.last := by
  obtain ⟨wrappers, -, h⟩ := Option.bind_eq_some_iff.1 h
  obtain ⟨inside, hinside, h⟩ := Option.bind_eq_some_iff.1 h
  obtain ⟨close, hclose, h⟩ := Option.bind_eq_some_iff.1 h
  intro node hnode
  have hlast := scan?_last h (List.forall_mem_nil _) node hnode
  have hinside := add_of_difference? hinside
  have hclose := add_of_difference? hclose
  omega

end Last

/-- The nodes directly below, each of which ends before the node itself does. -/
def nodes? (lib : Library) (source : List Char) (v : View) :
    Option (List { node : View // node.last < v.last }) :=
  match h : v.below? lib source with
  | none => none
  | some nodes => some (nodes.attachWith _ (below?_last h))

theorem nodes?_eq_some {lib : Library} {source : List Char} {v : View} {nodes : List View}
    (h : v.below? lib source = some nodes) :
    v.nodes? lib source = some (nodes.attachWith _ (below?_last h)) := by
  unfold nodes?
  split
  · next hnone =>
      rw [h] at hnone
      cases hnone
  · next nodes' hnodes' =>
      cases h.symm.trans hnodes'
      rfl

/-! ## Views of matches -/

/-- The view is that of the events of a derivation which fits the source, read as the match. -/
inductive Reads (lib : Library) (source : List Char) : View → Match → Prop
  | intro {buffer i p d} : d.Wraps lib.isWrapper → d.Fits p → p.IsIn source →
      Stands buffer i d.flat →
      Reads lib source (ofRange lib buffer i (i + d.flat.length - 1) p.offset)
        (.ofDerivation lib source p d)

section Passed

variable {lib : Library} {source : List Char} {buffer : Array Event} {v : View} {m : Match}

theorem pastWrappers?_eq_some {i : Nat} (h : pastWrappers lib buffer i < buffer.size) :
    pastWrappers? lib buffer i = some (pastWrappers lib buffer i) := by
  fun_induction pastWrappers lib buffer i with
  | case1 i hi r hr hwrapper ih =>
      rw [pastWrappers?, dif_pos hi]
      simp only [hr, hwrapper, if_true]
      exact ih h
  | case2 i hi r hr hwrapper =>
      rw [pastWrappers?, dif_pos hi]
      simp only [hr, hwrapper]
      rfl
  | case3 i hi hr =>
      rw [pastWrappers?, dif_pos hi]
      split
      · next r hopened => exact absurd hopened (hr r)
      · rfl
  | case4 i hi => exact absurd h hi

theorem pastWrappers_lt {d : Derivation} (hd : d.Wraps lib.isWrapper) {i : Nat}
    (h : Stands buffer i d.flat) : pastWrappers lib buffer i < buffer.size := by
  rw [pastWrappers_flat hd h]
  rw [d.flat_eq, Derivation.chain, List.map_append, List.append_assoc] at h
  obtain ⟨hprimary, -⟩ := (Stands.append_iff.1 h).2
  rw [List.length_map] at hprimary
  exact (Array.getElem?_eq_some_iff.1 hprimary).1

theorem ofRange?_eq_some {d : Derivation} (hd : d.Wraps lib.isWrapper) {i : Nat}
    (h : Stands buffer i d.flat) (last offset : Nat) :
    ofRange? lib buffer i last offset = some (ofRange lib buffer i last offset) := by
  unfold ofRange?
  rw [pastWrappers?_eq_some (pastWrappers_lt hd h)]
  rfl

namespace Reads

theorem agrees (h : v.Reads lib source m) : v.Agrees lib m := by
  cases h with
  | intro hd _ _ hstands => exact (ofRange_tells hd hstands).agrees source

theorem start_lt (h : v.Reads lib source m) : v.start < v.events.size := by
  cases h with
  | @intro buffer i p d _ _ _ hstands =>
      have hlength := d.length_flat
      have hsize := hstands.size_le
      simp only [ofRange]
      omega

theorem chain? (h : v.Reads lib source m) : v.chain? = some v.chain := by
  cases h with
  | @intro buffer i p d hd _ _ hstands =>
      have hlt := pastWrappers_lt hd hstands
      have hpast := pastWrappers_flat hd hstands
      unfold View.chain? View.chain
      simp only [ofRange]
      rw [slice?_eq_some (by omega) (by omega)]
      rfl

theorem names? (h : v.Reads lib source m) : v.names? lib = some m.names := by
  rw [View.names?, h.chain?, Option.map_some, h.agrees.names]

theorem hasName? (h : v.Reads lib source m) (name : String) :
    v.hasName? lib name = some (m.hasName name) := by
  rw [View.hasName?, h.names?]
  rfl

theorem ownEvents? (h : v.Reads lib source m) : v.ownEvents? = some m.events := by
  rw [← h.agrees.events]
  cases h with
  | @intro buffer i p d hd _ _ hstands =>
      have hlength := d.length_flat
      have hsize := hstands.size_le
      exact slice?_eq_some (by simp only [ofRange]; omega) (by simp only [ofRange]; omega)

theorem finish? (h : v.Reads lib source m) : v.finish? source = some m.finish := by
  have hlength := h.agrees.length
  have hoffset := h.agrees.offset
  cases h with
  | @intro buffer i p d _ hfits hp _ =>
      have hend := (hp.advance hfits.splits).offset_le
      unfold View.finish?
      rw [hlength, hoffset]
      have hfinish := Match.finish_ofDerivation lib source p d
      exact sumWithin?_eq_some (by rw [← Match.finish, hfinish]; exact hend)

theorem text? (h : v.Reads lib source m) : v.text? source = some m.text := by
  have hfinish := h.finish?
  cases h with
  | @intro buffer i p d _ hfits hp _ =>
      have hbetween := textBetween?_eq_some hp hfits.splits
      have htext := Match.text_ofDerivation lib source p d
      have hoffset := Match.finish_ofDerivation lib source p d
      unfold View.text?
      rw [hfinish, hoffset, Option.bind_eq_bind, Option.bind_some]
      simp only [ofRange, Place.advance]
      rw [hbetween, ← htext]
      simp

theorem lineColumn? (h : v.Reads lib source m) : v.lineColumn? source = some m.lineColumn := by
  have hoffset := h.agrees.offset
  have hsource : m.node.source = source := by
    cases h
    rw [Match.ofDerivation_node]
  unfold View.lineColumn? Match.lineColumn
  rw [hsource, hoffset]
  cases hposition : Position.at? source m.offset with
  | none => rfl
  | some position => exact Position.lineColumn?_eq_some hposition

end Reads

end Passed

/-! ## The scan -/

section Scan

variable {lib : Library} {source : List Char} {buffer : Array Event} {close i : Nat} {p p' : Place}
  {opened : List (Nat × Nat)} {found : List View}

/-- What is found once a derivation was passed over: the view of it, if no rule is open. -/
def noted (lib : Library) (buffer : Array Event) (i offset : Nat) (opened : List (Nat × Nat))
    (found : List View) (d : Derivation) : List View :=
  if opened.isEmpty then ofRange lib buffer i (i + d.flat.length - 1) offset :: found else found

theorem scan?_region {d : Derivation} {r : RuleRef} {body : List Event} {offset' : Nat}
    (hflat : d.flat = .opened r :: (body ++ [.closed, .length d.length]))
    (hd : d.Wraps lib.isWrapper) (hfits : d.Fits p) (hp : p.IsIn source)
    (h : Stands buffer i d.flat) (hclose : i + d.flat.length ≤ close)
    (hbody : scan? lib (byteLength source) buffer close (i + 1) p.offset ((i, p.offset) :: opened)
        found =
      scan? lib (byteLength source) buffer close (i + 1 + body.length) offset'
        ((i, p.offset) :: opened) found) :
    scan? lib (byteLength source) buffer close i p.offset opened found =
      scan? lib (byteLength source) buffer close (i + d.flat.length) (p.offset + d.length) opened
        (noted lib buffer i p.offset opened found d) := by
  have hrange := ofRange?_eq_some hd h (i + d.flat.length - 1) p.offset
  have hsum : sumWithin? (byteLength source) p.offset d.length = some (p.offset + d.length) :=
    sumWithin?_eq_some (hp.advance hfits.splits).offset_le
  have hlength : d.flat.length = body.length + 3 := by simp [hflat]
  rw [hflat] at h
  obtain ⟨hopened, hrest⟩ := h
  obtain ⟨-, hclosed, hlast, -⟩ := Stands.append_iff.1 hrest
  have hnext : i + 1 + body.length + 2 = i + d.flat.length := by omega
  have hindex : i + 1 + body.length + 1 = i + d.flat.length - 1 := by omega
  have hopen : i < close := by omega
  have hinside : i + 1 + body.length < close := by omega
  rw [hindex] at hlast
  conv => lhs; unfold scan?
  simp only [hopen, if_true, hopened, hbody]
  conv => lhs; unfold scan?
  simp only [hinside, if_true, hclosed, hindex, hlast, Option.bind_eq_bind, Option.bind_some,
    Event.bytes?, hsum, hnext, hrange, noted]
  split <;> rfl

mutual

theorem scan?_flat (d : Derivation) {i : Nat} {p : Place} {opened : List (Nat × Nat)}
    {found : List View} (hd : d.Wraps lib.isWrapper) (hfits : d.Fits p) (hp : p.IsIn source)
    (h : Stands buffer i d.flat) (hclose : i + d.flat.length ≤ close) :
    scan? lib (byteLength source) buffer close i p.offset opened found =
      scan? lib (byteLength source) buffer close (i + d.flat.length) (p.offset + d.length) opened
        (noted lib buffer i p.offset opened found d) := by
  cases d with
  | branch r n parts =>
      refine scan?_region rfl hd hfits hp h hclose (scan?_flatAll parts hd.2 hfits.2.2 hp ?_ ?_)
      · exact (Stands.append_iff.1 h.2).1
      · simp only [Derivation.flat, List.length_cons, List.length_append] at hclose
        omega
  | wrapped r inner =>
      refine scan?_region rfl hd hfits hp h hclose (scan?_flat inner hd.2 hfits hp ?_ ?_)
      · exact (Stands.append_iff.1 h.2).1
      · simp only [Derivation.flat, List.length_cons, List.length_append] at hclose
        omega

theorem scan?_flatAll (ds : List Derivation) {i : Nat} {p : Place} {innermost : Nat × Nat}
    {opened : List (Nat × Nat)} {found : List View} (hds : Derivation.WrapsAll lib.isWrapper ds)
    (hfits : Derivation.FitsAll p ds) (hp : p.IsIn source)
    (h : Stands buffer i (Derivation.flatAll ds))
    (hclose : i + (Derivation.flatAll ds).length ≤ close) :
    scan? lib (byteLength source) buffer close i p.offset (innermost :: opened) found =
      scan? lib (byteLength source) buffer close (i + (Derivation.flatAll ds).length)
        (p.offset + Derivation.totalLength ds) (innermost :: opened) found := by
  cases ds with
  | nil => rfl
  | cons d ds =>
      obtain ⟨hstands, hrest⟩ := Stands.append_iff.1 h
      simp only [Derivation.flatAll, List.length_append] at hclose ⊢
      have hp' := hp.advance hfits.1.splits
      rw [scan?_flat d hds.1 hfits.1 hp hstands (by omega), Derivation.totalLength, ← Nat.add_assoc,
        ← Nat.add_assoc]
      exact scan?_flatAll ds hds.2 hfits.2 hp' hrest (by omega)

end

theorem scan?_ofRow {ds : List Derivation} {i : Nat} {p : Place} {found : List View}
    (hds : Derivation.WrapsAll lib.isWrapper ds) (hfits : Derivation.FitsAll p ds)
    (hp : p.IsIn source) (h : Stands buffer i (Derivation.flatAll ds)) :
    scan? lib (byteLength source) buffer (i + (Derivation.flatAll ds).length) i p.offset [] found =
      some (found.reverse ++ ofRow lib buffer i p.offset ds) := by
  induction ds generalizing i p found with
  | nil =>
      unfold scan?
      simp [Derivation.flatAll, ofRow]
  | cons d ds ih =>
      obtain ⟨hstands, hrest⟩ := Stands.append_iff.1 h
      have hp' := hp.advance hfits.1.splits
      simp only [Derivation.flatAll, List.length_append]
      rw [scan?_flat d hds.1 hfits.1 hp hstands (by omega), ← Nat.add_assoc]
      refine (ih hds.2 hfits.2 hp' hrest).trans ?_
      simp [noted, ofRow, Place.advance]

end Scan

/-! ## The nodes below -/

section Below

variable {lib : Library} {source : List Char} {buffer : Array Event} {v : View} {m : Match}

theorem ofRow_reads {ds : List Derivation} {i : Nat} {p : Place}
    (hds : Derivation.WrapsAll lib.isWrapper ds) (hfits : Derivation.FitsAll p ds)
    (hp : p.IsIn source) (h : Stands buffer i (Derivation.flatAll ds)) :
    List.Forall₂ (Reads lib source) (ofRow lib buffer i p.offset ds)
      (Match.ofDerivations lib source p ds) := by
  induction ds generalizing i p with
  | nil =>
      simp only [ofRow, Match.ofDerivations]
      exact .nil
  | cons d ds ih =>
      obtain ⟨hstands, hrest⟩ := Stands.append_iff.1 h
      rw [Match.ofDerivations_cons]
      exact .cons (.intro hds.1 hfits.1 hp hstands)
        (ih hds.2 hfits.2 (hp.advance hfits.1.splits) hrest)

theorem le_start_of_mem_ofRow {ds : List Derivation} {i offset : Nat} :
    ∀ node ∈ ofRow lib buffer i offset ds, i ≤ node.start := by
  induction ds generalizing i offset with
  | nil =>
      intro node hnode
      cases hnode
  | cons d ds ih =>
      intro node hnode
      rcases List.mem_cons.1 hnode with rfl | hnode
      · exact Nat.le_refl i
      · exact Nat.le_trans (Nat.le_add_right i _) (ih node hnode)

namespace Reads

theorem below? (h : v.Reads lib source m) :
    ∃ nodes, v.below? lib source = some nodes ∧ (∀ node ∈ nodes, v.start < node.start) ∧
      List.Forall₂ (Reads lib source) nodes m.children := by
  cases h with
  | @intro buffer i p d hd hfits hp hstands =>
      have hpast := pastWrappers_flat hd hstands
      have hlength := d.length_flat
      have hparts := stands_parts hstands
      refine ⟨ofRow lib buffer (i + d.wrappers.length + 1) p.offset d.parts, ?_,
        fun node hnode => ?_, ?_⟩
      · simp only [View.below?, ofRange, hpast, Option.bind_eq_bind]
        rw [difference?_eq_some (by omega), Option.bind_some, difference?_eq_some (by omega),
          Option.bind_some, difference?_eq_some (by omega), Option.bind_some, close_eq]
        exact scan?_ofRow hd.parts hfits.parts hp hparts
      · have hle := le_start_of_mem_ofRow node hnode
        simp only [ofRange]
        omega
      · rw [Match.ofDerivation_children]
        exact ofRow_reads hd.parts hfits.parts hp hparts

theorem nodes? (h : v.Reads lib source m) :
    ∃ nodes, v.nodes? lib source = some nodes ∧
      List.Forall₂ (fun node child => v.start < node.1.start ∧ node.1.Reads lib source child)
        nodes m.children := by
  obtain ⟨nodes, hnodes, hstart, hreads⟩ := h.below?
  refine ⟨_, nodes?_eq_some hnodes, ?_⟩
  have hboth := (List.forall₂_and_left _ _).2 ⟨hstart, hreads⟩
  rw [← List.attachWith_map_subtype_val (below?_last hnodes), List.forall₂_map_left_iff] at hboth
  exact hboth

end Reads

end Below

end View

end Peg
