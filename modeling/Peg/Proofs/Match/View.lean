import Peg.Derivation.Reading
import Peg.Match.View

/-!
# Parts of a buffer as derivations

A view of the events of a derivation, wherever they stand in a buffer, tells what the derivation
tells: its wrappers and the rule inside them, its length, its events, and as the nodes below it the
views of its parts, each at the offset where the ones before it end. Main statement:
`View.ofRange_append_decodes`.
-/

namespace Peg

namespace Derivation

def wrappers : Derivation → List RuleRef
  | branch _ _ _ => []
  | wrapped r inner => r :: inner.wrappers

def primary : Derivation → RuleRef
  | branch r _ _ => r
  | wrapped _ inner => inner.primary

def parts : Derivation → List Derivation
  | branch _ _ parts => parts
  | wrapped _ inner => inner.parts

/-- The events behind the parts, which close the rule inside the wrappers and then these. -/
def closing : Derivation → List Event
  | branch _ n _ => [.closed, .length n]
  | wrapped _ inner => inner.closing ++ [.closed, .length inner.length]

def chain (d : Derivation) : List RuleRef := d.wrappers ++ [d.primary]

theorem length_closing (d : Derivation) : d.closing.length = 2 * (d.wrappers.length + 1) := by
  cases d with
  | branch r n parts => rfl
  | wrapped r inner =>
      have hinner := length_closing inner
      simp only [closing, wrappers, List.length_append, List.length_cons, List.length_nil, hinner]
      omega

theorem flat_eq (d : Derivation) :
    d.flat = d.chain.map .opened ++ (flatAll d.parts ++ d.closing) := by
  cases d with
  | branch r n parts => simp [flat, chain, wrappers, primary, Derivation.parts, closing]
  | wrapped r inner =>
      have hinner := flat_eq inner
      simp only [flat, hinner, chain, wrappers, primary, Derivation.parts, closing]
      simp

theorem exists_flat_eq_concat (d : Derivation) : ∃ front, d.flat = front ++ [.length d.length] := by
  cases d with
  | branch r n parts => exact ⟨.opened r :: (flatAll parts ++ [.closed]), by simp [flat, length]⟩
  | wrapped r inner => exact ⟨.opened r :: (inner.flat ++ [.closed]), by simp [flat, length]⟩

theorem length_flat (d : Derivation) :
    d.flat.length = d.wrappers.length + 1 + (flatAll d.parts).length + 2 * (d.wrappers.length + 1) := by
  rw [flat_eq]
  simp only [List.length_append, List.length_map, chain, List.length_singleton, length_closing]
  omega

theorem Wraps.wrappers {isWrapper : RuleRef → Bool} {d : Derivation} (h : d.Wraps isWrapper) :
    ∀ r ∈ d.wrappers, isWrapper r = true := by
  cases d with
  | branch r n parts =>
      intro r' hr'
      cases hr'
  | wrapped r inner => exact List.forall_mem_cons.2 ⟨h.1, Wraps.wrappers h.2⟩

theorem Wraps.primary {isWrapper : RuleRef → Bool} {d : Derivation} (h : d.Wraps isWrapper) :
    isWrapper d.primary = false := by
  cases d with
  | branch r n parts => exact h.1
  | wrapped r inner =>
      have hinner := Wraps.primary h.2
      exact hinner

end Derivation

/-! ## Events in a buffer -/

/-- The events stand in the buffer from an index on. -/
def Stands (buffer : Array Event) : Nat → List Event → Prop
  | _, [] => True
  | i, e :: es => buffer[i]? = some e ∧ Stands buffer (i + 1) es

namespace Stands

variable {buffer : Array Event} {i : Nat} {es es' : List Event}

theorem append_iff : Stands buffer i (es ++ es') ↔
    Stands buffer i es ∧ Stands buffer (i + es.length) es' := by
  induction es generalizing i with
  | nil => simp [Stands]
  | cons e es ih =>
      simp only [List.cons_append, Stands, ih, List.length_cons, and_assoc]
      rw [Nat.add_assoc, Nat.add_comm 1]

theorem of_append (before after : Array Event) (es : List Event) :
    Stands (before ++ es.toArray ++ after) before.size es := by
  induction es generalizing before with
  | nil => trivial
  | cons e es ih =>
      have hrest := ih (before.push e)
      have hsame : before.push e ++ es.toArray ++ after = before ++ (e :: es).toArray ++ after := by
        rw [← Array.toList_inj]
        simp
      rw [hsame, Array.size_push] at hrest
      refine ⟨?_, hrest⟩
      rw [Array.append_assoc, Array.getElem?_append_right (Nat.le_refl _), Nat.sub_self,
        Array.getElem?_append_left (by simp)]
      simp

theorem exists_drop (h : Stands buffer i es) : ∃ back, buffer.toList.drop i = es ++ back := by
  induction es generalizing i with
  | nil => exact ⟨_, rfl⟩
  | cons e es ih =>
      obtain ⟨he, hrest⟩ := h
      obtain ⟨back, hback⟩ := ih hrest
      obtain ⟨hi, rfl⟩ := Array.getElem?_eq_some_iff.1 he
      refine ⟨back, ?_⟩
      rw [List.drop_eq_getElem_cons (by simpa using hi), hback]
      simp

theorem extract (h : Stands buffer i es) : buffer.extract i (i + es.length) = es.toArray := by
  obtain ⟨back, hback⟩ := h.exists_drop
  rw [← Array.toList_inj]
  simp [hback]

end Stands

namespace View

variable {lib : Library} {buffer : Array Event}

/-! ## The rules that open first -/

theorem pastWrappers_opened {i : Nat} {r : RuleRef} (h : buffer[i]? = some (.opened r)) :
    pastWrappers lib buffer i =
      if lib.isWrapper r then pastWrappers lib buffer (i + 1) else i := by
  obtain ⟨hi, hr⟩ := Array.getElem?_eq_some_iff.1 h
  rw [pastWrappers]
  simp only [hi, dif_pos, hr]

theorem pastWrappers_flat {d : Derivation} (hd : d.Wraps lib.isWrapper) {i : Nat}
    (h : Stands buffer i d.flat) : pastWrappers lib buffer i = i + d.wrappers.length := by
  cases d with
  | branch r n parts =>
      obtain ⟨hr, -⟩ := hd
      rw [pastWrappers_opened h.1, hr]
      simp [Derivation.wrappers]
  | wrapped r inner =>
      obtain ⟨hr, hinner⟩ := hd
      obtain ⟨hopened, hrest⟩ := h
      have hpast := pastWrappers_flat hinner (Stands.append_iff.1 hrest).1
      rw [pastWrappers_opened hopened, hr, if_pos rfl, hpast]
      simp only [Derivation.wrappers, List.length_cons]
      omega

/-! ## The scan for parts -/

section Scan

variable {close i offset : Nat} {opened : List (Nat × Nat)} {found : List View}

theorem scan_opened {r : RuleRef} (hi : i < close) (h : buffer[i]? = some (.opened r)) :
    scan lib buffer close i offset opened found =
      scan lib buffer close (i + 1) offset ((i, offset) :: opened) found := by
  conv => lhs; unfold scan
  simp only [hi, if_true, h]

theorem scan_closed {start before n : Nat} (hi : i < close) (h : buffer[i]? = some .closed)
    (hn : buffer[i + 1]? = some (.length n)) :
    scan lib buffer close i offset ((start, before) :: opened) found =
      scan lib buffer close (i + 2) (before + n) opened
        (if opened.isEmpty then ofRange lib buffer start (i + 1) before :: found else found) := by
  conv => lhs; unfold scan
  simp only [hi, if_true, h, hn, Option.bind_some, Event.bytes?]

theorem scan_region {r : RuleRef} {n offset' : Nat} {body : List Event}
    (h : Stands buffer i (.opened r :: (body ++ [.closed, .length n])))
    (hclose : i + body.length + 3 ≤ close)
    (hbody : scan lib buffer close (i + 1) offset ((i, offset) :: opened) found =
      scan lib buffer close (i + 1 + body.length) offset' ((i, offset) :: opened) found) :
    scan lib buffer close i offset opened found =
      scan lib buffer close (i + body.length + 3) (offset + n) opened
        (if opened.isEmpty then ofRange lib buffer i (i + body.length + 2) offset :: found
          else found) := by
  obtain ⟨hopened, hrest⟩ := h
  obtain ⟨-, hclosed, hlength, -⟩ := Stands.append_iff.1 hrest
  have hlast : i + 1 + body.length + 1 = i + body.length + 2 := by omega
  have hnext : i + 1 + body.length + 2 = i + body.length + 3 := by omega
  rw [scan_opened (by omega) hopened, hbody, scan_closed (by omega) hclosed hlength, hlast, hnext]

mutual

theorem scan_flat (d : Derivation) {i offset : Nat} {opened : List (Nat × Nat)}
    {found : List View} (h : Stands buffer i d.flat) (hclose : i + d.flat.length ≤ close) :
    scan lib buffer close i offset opened found =
      scan lib buffer close (i + d.flat.length) (offset + d.length) opened
        (if opened.isEmpty then ofRange lib buffer i (i + d.flat.length - 1) offset :: found
          else found) := by
  cases d with
  | branch r n parts =>
      have hlength : (Derivation.branch r n parts).flat.length =
          (Derivation.flatAll parts).length + 3 := by simp [Derivation.flat]
      rw [hlength] at hclose ⊢
      have hparts := (Stands.append_iff.1 h.2).1
      exact scan_region h (by omega) (scan_flatAll parts hparts (by omega))
  | wrapped r inner =>
      have hlength : (Derivation.wrapped r inner).flat.length = inner.flat.length + 3 := by
        simp [Derivation.flat]
      rw [hlength] at hclose ⊢
      have hinner := (Stands.append_iff.1 h.2).1
      exact scan_region h (by omega) (scan_flat inner hinner (by omega))

theorem scan_flatAll (ds : List Derivation) {i offset : Nat} {innermost : Nat × Nat}
    {opened : List (Nat × Nat)} {found : List View} (h : Stands buffer i (Derivation.flatAll ds))
    (hclose : i + (Derivation.flatAll ds).length ≤ close) :
    scan lib buffer close i offset (innermost :: opened) found =
      scan lib buffer close (i + (Derivation.flatAll ds).length)
        (offset + Derivation.totalLength ds) (innermost :: opened) found := by
  cases ds with
  | nil => rfl
  | cons d ds =>
      obtain ⟨hd, hds⟩ := Stands.append_iff.1 h
      simp only [Derivation.flatAll, List.length_append] at hclose ⊢
      rw [scan_flat d hd (by omega), scan_flatAll ds hds (by omega), Nat.add_assoc, Nat.add_assoc]
      rfl

end

end Scan

/-- The views of derivations whose events stand in a row. -/
def ofRow (lib : Library) (buffer : Array Event) : Nat → Nat → List Derivation → List View
  | _, _, [] => []
  | i, offset, d :: ds =>
    ofRange lib buffer i (i + d.flat.length - 1) offset ::
      ofRow lib buffer (i + d.flat.length) (offset + d.length) ds

theorem scan_ofRow {ds : List Derivation} {i offset : Nat} {found : List View}
    (h : Stands buffer i (Derivation.flatAll ds)) :
    scan lib buffer (i + (Derivation.flatAll ds).length) i offset [] found =
      some (found.reverse ++ ofRow lib buffer i offset ds) := by
  induction ds generalizing i offset found with
  | nil =>
      unfold scan
      simp [Derivation.flatAll, ofRow]
  | cons d ds ih =>
      obtain ⟨hd, hds⟩ := Stands.append_iff.1 h
      simp only [Derivation.flatAll, List.length_append]
      rw [scan_flat d hd (by omega), ← Nat.add_assoc, ih hds]
      simp [ofRow]

/-! ## Views of derivations -/

/-- The view tells of the derivation what does not depend on its parts. All rules of the chain but the
last are wrappers. -/
structure Tells (lib : Library) (v : View) (d : Derivation) (offset : Nat) : Prop where
  offset : v.offset = offset
  length : v.length? = some d.length
  events : v.ownEvents = d.events
  chain : v.chain = d.wrappers ++ [d.primary]
  rule : v.rule? = some d.primary
  wrappers : ∀ r ∈ d.wrappers, lib.isWrapper r = true
  primary : lib.isWrapper d.primary = false

mutual

/-- The view shows the derivation from an offset on, and the nodes below it show the parts. -/
inductive Decodes (lib : Library) : View → Derivation → Nat → Prop
  | node {v d offset children} : v.Tells lib d offset → v.children? lib = some children →
      DecodesAll lib children d.parts offset → Decodes lib v d offset

/-- The views show the derivations, each from the offset on where the one before it ends. -/
inductive DecodesAll (lib : Library) : List View → List Derivation → Nat → Prop
  | nil {offset} : DecodesAll lib [] [] offset
  | cons {v d vs ds offset} : Decodes lib v d offset → DecodesAll lib vs ds (offset + d.length) →
      DecodesAll lib (v :: vs) (d :: ds) offset

end

theorem ofRange_tells {d : Derivation} {i offset : Nat} (hd : d.Wraps lib.isWrapper)
    (h : Stands buffer i d.flat) :
    (ofRange lib buffer i (i + d.flat.length - 1) offset).Tells lib d offset := by
  have hpast := pastWrappers_flat hd h
  have hlength := d.length_flat
  have hchain : Stands buffer i (d.chain.map .opened) := by
    rw [d.flat_eq] at h
    exact (Stands.append_iff.1 h).1
  constructor
  · rfl
  · obtain ⟨front, hfront⟩ := d.exists_flat_eq_concat
    rw [hfront] at h
    obtain ⟨-, hlast, -⟩ := Stands.append_iff.1 h
    have hindex : i + d.flat.length - 1 = i + front.length := by
      rw [hfront, List.length_append, List.length_singleton]
      omega
    simp only [length?, ofRange, hindex, hlast, Option.bind_some, Event.bytes?]
  · -- a derivation has events, so the last one is the end of what is its own
    have hindex : i + d.flat.length - 1 + 1 = i + d.flat.length := by omega
    simp only [ownEvents, ofRange, hindex, h.extract]
    rw [← Derivation.events_toList]
  · have hindex : i + d.wrappers.length + 1 = i + (d.chain.map Event.opened).length := by
      simp [Derivation.chain, Nat.add_assoc]
    simp only [chain, ofRange, hpast, hindex, hchain.extract]
    simp [Derivation.chain, Event.rule?, List.filterMap_map, Function.comp_def]
  · rw [Derivation.chain, List.map_append] at hchain
    obtain ⟨-, hprimary, -⟩ := Stands.append_iff.1 hchain
    rw [List.length_map] at hprimary
    simp only [rule?, ofRange, hpast, hprimary, Option.bind_some, Event.rule?]
  · exact hd.wrappers
  · exact hd.primary

theorem stands_parts {d : Derivation} {i : Nat} (h : Stands buffer i d.flat) :
    Stands buffer (i + d.wrappers.length + 1) (Derivation.flatAll d.parts) := by
  rw [d.flat_eq] at h
  have hparts := (Stands.append_iff.1 (Stands.append_iff.1 h).2).1
  have hstart : i + (d.chain.map Event.opened).length = i + d.wrappers.length + 1 := by
    simp [Derivation.chain, Nat.add_assoc]
  rw [hstart] at hparts
  exact hparts

/-- Every wrapper around the rule opens with one event and closes with two, so the parts end where the
rule does once these were taken off. -/
theorem close_eq (d : Derivation) (i : Nat) :
    i + d.flat.length - 1 - 2 * (i + d.wrappers.length - i) - 1 =
      i + d.wrappers.length + 1 + (Derivation.flatAll d.parts).length := by
  have hlength := d.length_flat
  omega

theorem children?_ofRange {d : Derivation} {i offset : Nat} (hd : d.Wraps lib.isWrapper)
    (h : Stands buffer i d.flat) :
    (ofRange lib buffer i (i + d.flat.length - 1) offset).children? lib =
      some (ofRow lib buffer (i + d.wrappers.length + 1) offset d.parts) := by
  have hpast := pastWrappers_flat hd h
  simp only [children?, ofRange, hpast, close_eq]
  exact scan_ofRow (stands_parts h)

mutual

theorem ofRow_parts_decodes (d : Derivation) {i : Nat} (offset : Nat)
    (hd : d.Wraps lib.isWrapper) (h : Stands buffer i d.flat) :
    DecodesAll lib (ofRow lib buffer (i + d.wrappers.length + 1) offset d.parts) d.parts offset := by
  cases d with
  | branch r n parts => exact ofRow_decodes parts hd.2 (Stands.append_iff.1 h.2).1
  | wrapped r inner =>
      have hinner := ofRow_parts_decodes inner offset hd.2 (Stands.append_iff.1 h.2).1
      have hstart : i + 1 + inner.wrappers.length + 1 =
          i + (Derivation.wrapped r inner).wrappers.length + 1 := by
        simp only [Derivation.wrappers, List.length_cons]
        omega
      rw [hstart] at hinner
      exact hinner

theorem ofRow_decodes (ds : List Derivation) {i offset : Nat}
    (hds : Derivation.WrapsAll lib.isWrapper ds) (h : Stands buffer i (Derivation.flatAll ds)) :
    DecodesAll lib (ofRow lib buffer i offset ds) ds offset := by
  cases ds with
  | nil => exact .nil
  | cons d ds =>
      obtain ⟨hd, hrest⟩ := Stands.append_iff.1 h
      exact .cons (.node (ofRange_tells hds.1 hd) (children?_ofRange hds.1 hd)
        (ofRow_parts_decodes d offset hds.1 hd)) (ofRow_decodes ds hds.2 hrest)

end

theorem ofRange_decodes {d : Derivation} {i offset : Nat} (hd : d.Wraps lib.isWrapper)
    (h : Stands buffer i d.flat) :
    (ofRange lib buffer i (i + d.flat.length - 1) offset).Decodes lib d offset :=
  .node (ofRange_tells hd h) (children?_ofRange hd h) (ofRow_parts_decodes d offset hd h)

/-- Other events may stand before and behind. -/
theorem ofRange_append_decodes {d : Derivation} (hd : d.Wraps lib.isWrapper)
    (before after : Array Event) (offset : Nat) :
    (ofRange lib (before ++ d.events ++ after) before.size (before.size + d.events.size - 1)
      offset).Decodes lib d offset := by
  have hevents : d.events = d.flat.toArray := by rw [← Derivation.events_toList]
  have hstands := Stands.of_append before after d.flat
  rw [hevents, List.size_toArray]
  exact ofRange_decodes hd hstands

theorem ofEvents_decodes {d : Derivation} (hd : d.Wraps lib.isWrapper) (offset : Nat) :
    (ofEvents lib d.events offset).Decodes lib d offset := by
  have hdecodes := ofRange_append_decodes hd #[] #[] offset
  simpa [ofEvents] using hdecodes

end View

end Peg
