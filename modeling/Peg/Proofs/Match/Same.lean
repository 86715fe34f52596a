import Peg.Proofs.Match.Queries

/-!
# Equal nodes

Two nodes of matches of one text are the same if they begin at the same offset and have the same
events. Their events may stand at different places of different buffers, and yet nothing that can be
asked of them tells them apart: a node depends on its offset and on its own events alone. Main
statement: `Library.same_congruent`.
-/

namespace Peg

/-! ## Nodes as documents -/

namespace View

section Document

variable (lib : Library) (source : List Char)

/-- Offsets, names, and either the nodes below or, where there are none, the text. -/
def document? (v : View) : Option Json.Document := do
  let finish ← v.finish? source
  let names ← v.names? lib
  let nodes ← v.nodes? lib source
  let inner : Json.Document ←
    if nodes.isEmpty then (v.text? source).map .string
    else do
      let below ← nodes.mapM fun ⟨node, _⟩ => node.document?
      some (.array below)
  some (.object
    [("pos", .array [.number v.offset, .number finish]), ("names", .array (names.map .string)),
      ("inner", inner)])
termination_by v.last

def toJson? (v : View) : Option String := (v.document? lib source).map Json.Document.pretty

end Document

variable {lib : Library} {source : List Char} {v w : View} {m m' : Match}

theorem Reads.document? (h : v.Reads lib source m) :
    v.document? lib source = some m.document := by
  induction hlast : v.last using Nat.strongRecOn generalizing v m with
  | ind last ih =>
      subst hlast
      obtain ⟨nodes, hnodes, hchildren⟩ := h.nodes?
      have hbelow (node : { node : View // node.last < v.last }) (m : Match)
          (hnode : v.start < node.1.start ∧ node.1.Reads lib source m) :
          ∃ document, node.1.document? lib source = some document ∧ document = m.document :=
        ⟨_, ih node.1.last node.2 hnode.2 rfl, rfl⟩
      obtain ⟨inner, hinner, hall⟩ := exists_mapM_eq_some hchildren hbelow
      rw [List.forall₂_eq_eq_eq] at hall
      have hempty : nodes.isEmpty = m.children.isEmpty := by
        rw [Bool.eq_iff_iff, List.isEmpty_iff_length_eq_zero, hchildren.length_eq,
          List.isEmpty_iff_length_eq_zero]
      rw [View.document?.eq_def, h.finish?, h.names?, hnodes, Match.document_eq, h.text?,
        h.agrees.offset]
      simp only [Option.bind_eq_bind, Option.bind_some, Option.map_some, hinner, hall, hempty]
      split <;> rfl

theorem Reads.toJson? (h : v.Reads lib source m) : v.toJson? lib source = some m.toJson := by
  rw [View.toJson?, h.document?]
  rfl

/-! ## What the same nodes tell -/

/-- Whether two nodes are the same: they begin at the same offset and have the same events. -/
def same? (v w : View) : Option Bool := do
  let events ← v.ownEvents?
  let events' ← w.ownEvents?
  some (v.offset == w.offset && events == events')

def Agree {α : Type} (tell : View → Option α) (v w : View) : Prop :=
  ∃ a, tell v = some a ∧ tell w = some a

/-- Nothing that can be asked of the nodes tells them apart, and the nodes below them are the same. -/
structure Alike (lib : Library) (source : List Char) (v w : View) : Prop where
  offset : v.offset = w.offset
  rule : Agree rule? v w
  names : Agree (names? lib) v w
  length : Agree length? v w
  text : Agree (text? source) v w
  lineColumn : Agree (lineColumn? source) v w
  below : ∃ nodes nodes', v.below? lib source = some nodes ∧ w.below? lib source = some nodes' ∧
    List.Forall₂ (fun node node' => node.same? node' = some true) nodes nodes'
  dump : Agree (dump? lib source) v w
  json : Agree (toJson? lib source) v w

theorem Reads.same? (h : v.Reads lib source m) (h' : w.Reads lib source m') :
    v.same? w = some (m.offset == m'.offset && m.events == m'.events) := by
  simp only [View.same?, h.ownEvents?, h'.ownEvents?, h.agrees.offset, h'.agrees.offset,
    Option.bind_eq_bind, Option.bind_some]

theorem Reads.same?_self (h : v.Reads lib source m) (h' : w.Reads lib source m) :
    v.same? w = some true := by
  rw [h.same? h', beq_self_eq_true, beq_self_eq_true]
  rfl

theorem forall₂_same {nodes nodes' : List View} {ms : List Match}
    (h : List.Forall₂ (Reads lib source) nodes ms) (h' : List.Forall₂ (Reads lib source) nodes' ms) :
    List.Forall₂ (fun node node' => node.same? node' = some true) nodes nodes' := by
  induction h generalizing nodes' with
  | nil =>
      cases h'
      exact .nil
  | cons hnode _ ih =>
      cases h' with
      | cons hnode' hrest => exact .cons (hnode.same?_self hnode') (ih hrest)

theorem Reads.alike (h : v.Reads lib source m) (h' : w.Reads lib source m) :
    v.Alike lib source w where
  offset := h.agrees.offset.trans h'.agrees.offset.symm
  rule := ⟨_, h.passes.rule, h'.passes.rule⟩
  names := ⟨_, h.passes.names, h'.passes.names⟩
  length := ⟨_, h.passes.length, h'.passes.length⟩
  text := ⟨_, h.passes.text, h'.passes.text⟩
  lineColumn := ⟨_, h.passes.lineColumn, h'.passes.lineColumn⟩
  below := by
    obtain ⟨nodes, hnodes, hchildren⟩ := h.passes.children
    obtain ⟨nodes', hnodes', hchildren'⟩ := h'.passes.children
    exact ⟨nodes, nodes', hnodes, hnodes', forall₂_same hchildren hchildren'⟩
  dump := ⟨_, h.passes.dump, h'.passes.dump⟩
  json := ⟨_, h.toJson?, h'.toJson?⟩

/-- The events of a node tell its derivation, and its offset tells its place. So views of nodes that
are the same are views of one node. -/
theorem Reads.eq_of_events (h : v.Reads lib source m) (h' : w.Reads lib source m')
    (hoffset : m.offset = m'.offset) (hevents : m.events = m'.events) : m = m' := by
  cases h with
  | @intro buffer i p d hd _ hp _ =>
      cases h' with
      | @intro buffer' i' p' d' hd' _ hp' _ =>
          simp only [Match.offset, Match.events, Match.ofDerivation_node] at hoffset hevents
          have hderivation : some d = some d' := by
            rw [← Derivation.ofEvents?_events hd, ← Derivation.ofEvents?_events hd', hevents]
          have hplace : some p = some p' := by
            rw [← Place.at?_eq_some_iff.2 ⟨hp, rfl⟩, ← Place.at?_eq_some_iff.2 ⟨hp', rfl⟩, hoffset]
          cases hderivation
          cases hplace
          rfl

theorem Reads.eq_of_same? (h : v.Reads lib source m) (h' : w.Reads lib source m')
    (hsame : v.same? w = some true) : m = m' := by
  rw [h.same? h', Option.some.injEq, Bool.and_eq_true, beq_iff_eq, beq_iff_eq] at hsame
  exact h.eq_of_events h' hsame.1 hsame.2

theorem reads_ofRange {p : Place} {d : Derivation} (hd : d.Wraps lib.isWrapper) (hfits : d.Fits p)
    (hp : p.IsIn source) (front back : Array Event) :
    (ofRange lib (front ++ d.events ++ back) front.size (front.size + d.events.size - 1)
      p.offset).Reads lib source (.ofDerivation lib source p d) := by
  have hevents : d.events = d.flat.toArray := by rw [← Derivation.events_toList]
  rw [hevents, List.size_toArray]
  exact .intro hd hfits hp (Stands.of_append front back d.flat)

theorem Reads.transplanted (h : v.Reads lib source m) (front back : Array Event) :
    (ofRange lib (front ++ m.events ++ back) front.size (front.size + m.events.size - 1)
      v.offset).Reads lib source m := by
  cases h with
  | intro hd hfits hp _ =>
      simp only [Match.events, Match.ofDerivation_node]
      exact reads_ofRange hd hfits hp front back

theorem Descends.trans {u : View} (h : v.Descends lib source w) (h' : w.Descends lib source u) :
    v.Descends lib source u := by
  induction h' with
  | refl => exact h
  | down _ hnodes hnode ih => exact .down ih hnodes hnode

theorem Reads.exists_descends (h : v.Reads lib source m) {n : Match} (hn : n ∈ m.nodes) :
    ∃ w, v.Descends lib source w ∧ w.Reads lib source n := by
  induction m using Match.inductionOn generalizing v with
  | step m ih =>
      rw [Match.nodes_eq] at hn
      rcases List.mem_cons.1 hn with rfl | hn
      · exact ⟨v, .refl, h⟩
      · obtain ⟨c, hc, hn⟩ := Match.mem_nodesAll.1 hn
        obtain ⟨nodes, hnodes, -, hchildren⟩ := h.below?
        obtain ⟨node, hnode, hreads⟩ := exists_mem_of_forall₂ hchildren.flip hc
        obtain ⟨w, hw, hread⟩ := ih c hc hreads hn
        exact ⟨w, Descends.trans (.down .refl hnodes hnode) hw, hread⟩

end View

/-! ## Nodes of parses -/

def Match.view (lib : Library) (m : Match) : View := .ofEvents lib m.events m.offset

namespace Library

variable {lib : Library} {g g' : Nat} {text : String} {options options' : ParseOptions}
  {m m' : Match}

theorem reads_of_parse (hlib : lib.Built) (hm : lib.parse g text options = .ok m) :
    (m.view lib).Reads lib text.toList m := by
  obtain ⟨root, p, d, hplace, hderives, rfl, -⟩ := exists_derives_of_parse hlib.closed hm
  obtain ⟨hp, -⟩ := Place.at?_eq_some_iff.1 hplace
  have hreads := View.reads_ofRange hderives.wraps hderives.fits hp #[] #[]
  simp only [Match.view, View.ofEvents, Match.events, Match.offset, Match.ofDerivation_node]
  simpa using hreads

/-- Nodes that are the same cannot be told apart, whichever parses of a text they come from and
wherever their events stand: the views of them tell the same, the trees below them are equal, and the
events of a node tell the same in any other buffer. -/
theorem same_congruent (hlib : lib.Built) (hm : lib.parse g text options = .ok m)
    (hm' : lib.parse g' text options' = .ok m') :
    (∀ v v', (m.view lib).Descends lib text.toList v → (m'.view lib).Descends lib text.toList v' →
      v.same? v' = some true → v.Alike lib text.toList v') ∧
    (∀ n ∈ m.nodes, ∀ n' ∈ m'.nodes, n.same n' = true → n = n') ∧
    ∀ v, (m.view lib).Descends lib text.toList v → ∃ own, v.ownEvents? = some own ∧
      ∀ front back : Array Event, v.Alike lib text.toList
        (.ofRange lib (front ++ own ++ back) front.size (front.size + own.size - 1) v.offset) := by
  have hreads := reads_of_parse hlib hm
  have hreads' := reads_of_parse hlib hm'
  refine ⟨fun v v' hv hv' hsame => ?_, fun n hn n' hn' hsame => ?_, fun v hv => ?_⟩
  · obtain ⟨n, -, hread⟩ := hreads.descends hv
    obtain ⟨n', -, hread'⟩ := hreads'.descends hv'
    obtain rfl := hread.eq_of_same? hread' hsame
    exact hread.alike hread'
  · obtain ⟨v, -, hread⟩ := hreads.exists_descends hn
    obtain ⟨v', -, hread'⟩ := hreads'.exists_descends hn'
    simp only [Match.same, Bool.and_eq_true, beq_iff_eq] at hsame
    exact hread.eq_of_events hread' hsame.1.2 hsame.2
  · obtain ⟨n, -, hread⟩ := hreads.descends hv
    exact ⟨_, hread.ownEvents?, fun front back => hread.alike (hread.transplanted front back)⟩

/-- The inner brackets, read within the outer ones and on their own. -/
theorem same_congruent_brackets :
    ∃ m m', bracketLibrary.parse 0 "(())" {} = .ok m ∧
      bracketLibrary.parse 0 "(())" { startOffset := 1, requireFullConsumption := false } = .ok m' ∧
      (∃ n ∈ m.nodes, ∃ n' ∈ m'.nodes, n.same n' = true ∧ n = n') ∧
      ∃ v v', (m.view bracketLibrary).Descends bracketLibrary "(())".toList v ∧
        (m'.view bracketLibrary).Descends bracketLibrary "(())".toList v' ∧
        v.same? v' = some true ∧ v.Alike bracketLibrary "(())".toList v' := by
  let inner : ParseOptions := { startOffset := 1, requireFullConsumption := false }
  have hfound : ((bracketLibrary.parse 0 "(())" {}).toOption.bind fun m =>
      (bracketLibrary.parse 0 "(())" inner).toOption.map fun m' =>
        m.nodes.any fun n => m'.children.any (n.same ·)) = some true := by
    decide +kernel
  cases hm : bracketLibrary.parse 0 "(())" {} with
  | error e =>
      rw [hm] at hfound
      cases hfound
  | ok m =>
      cases hm' : bracketLibrary.parse 0 "(())" inner with
      | error e =>
          rw [hm, hm'] at hfound
          cases hfound
      | ok m' =>
          rw [hm, hm'] at hfound
          simp only [Except.toOption, Option.bind_some, Option.map_some, Option.some.injEq,
            List.any_eq_true] at hfound
          obtain ⟨n, hn, n', hn', hsame⟩ := hfound
          have hchild := m'.mem_nodes_of_mem_children m'.mem_nodes_self hn'
          obtain ⟨hviews, hnodes, -⟩ := same_congruent bracketLibrary_built hm hm'
          obtain ⟨v, hv, hread⟩ := (reads_of_parse bracketLibrary_built hm).exists_descends hn
          obtain ⟨v', hv', hread'⟩ := (reads_of_parse bracketLibrary_built hm').exists_descends hchild
          have heq := hnodes n hn n' hchild hsame
          subst heq
          have hsame' := hread.same?_self hread'
          exact ⟨m, m', rfl, rfl, ⟨n, hn, n, hchild, hsame, rfl⟩, v, v', hv, hv', hsame',
            hviews v v' hv hv' hsame'⟩

end Library

end Peg
