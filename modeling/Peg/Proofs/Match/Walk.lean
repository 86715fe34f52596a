import Mathlib.Data.Multiset.DershowitzManna
import Peg.Match.Printed
import Peg.Proofs.Match.Checked

/-!
# Walks over views with every check

Looking for descendants and printing a match, as a program does it that asks each node for the nodes
below it when it gets there. A node below ends before the node itself does, which is why the walks
end. A view of a match of the source passes all the checks on the way and finds what the match tree
holds.
-/

namespace Peg

namespace Match

theorem findBelow_eq (name : String) (m : Match) :
    m.findBelow name = m.children.filter (·.hasName name) ++ findBelowAll name m.children := by
  cases m
  rfl

theorem findBelowAll_eq (name : String) (ms : List Match) :
    findBelowAll name ms = (ms.map (findBelow name)).flatten := by
  induction ms with
  | nil => rfl
  | cons m ms ih => rw [findBelowAll, ih, List.map_cons, List.flatten_cons]

theorem namedFrom_eq (m : Match) :
    m.namedFrom = if m.names.isEmpty then m.namedMatches else [m] := by
  cases m
  rfl

theorem namedFromAll_eq (ms : List Match) : namedFromAll ms = (ms.map namedFrom).flatten := by
  induction ms with
  | nil => rfl
  | cons m ms ih => rw [namedFromAll, ih, List.map_cons, List.flatten_cons]

theorem dumpAt_eq (indent : String) (m : Match) :
    m.dumpAt indent = indent ++ m.line ++ "\n" ++ dumpAll (indent ++ "  ") m.children := by
  cases m
  rfl

theorem foldl_dumpAt (indent : String) (ms : List Match) (out : String) :
    ms.foldl (fun out m => out ++ m.dumpAt indent) out = out ++ dumpAll indent ms := by
  induction ms generalizing out with
  | nil => rw [List.foldl_nil, dumpAll, String.append_empty]
  | cons m ms ih => rw [List.foldl_cons, ih, dumpAll, String.append_assoc]

theorem documents_eq (ms : List Match) : documents ms = ms.map document := by
  induction ms with
  | nil => rfl
  | cons m ms ih => rw [documents, ih, List.map_cons]

theorem document_eq (m : Match) :
    m.document = .object
      [("pos", .array [.number m.offset, .number m.finish]),
        ("names", .array (m.names.map .string)),
        ("inner", if m.children.isEmpty then .string m.text
          else .array (m.children.map document))] := by
  rw [← documents_eq]
  cases m
  rfl

theorem mem_nodes_self (m : Match) : m ∈ m.nodes := by
  rw [nodes_eq]
  exact List.mem_cons_self

theorem mem_nodesAll {m : Match} {ms : List Match} : m ∈ nodesAll ms ↔ ∃ n ∈ ms, m ∈ n.nodes := by
  induction ms with
  | nil => simp [nodesAll]
  | cons n ms ih => simp [nodesAll, ih]

mutual

theorem mem_nodes_of_mem_children (m : Match) {n c : Match} (hn : n ∈ m.nodes)
    (hc : c ∈ n.children) : c ∈ m.nodes := by
  cases m with
  | mk node call children =>
      rcases List.mem_cons.1 hn with rfl | hn
      · exact List.mem_cons_of_mem _ (mem_nodesAll.2 ⟨c, hc, c.mem_nodes_self⟩)
      · exact List.mem_cons_of_mem _ (mem_nodesAll_of_mem_children children hn hc)

theorem mem_nodesAll_of_mem_children (ms : List Match) {n c : Match} (hn : n ∈ nodesAll ms)
    (hc : c ∈ n.children) : c ∈ nodesAll ms := by
  cases ms with
  | nil => cases hn
  | cons m ms =>
      rcases List.mem_append.1 hn with hn | hn
      · exact List.mem_append_left _ (mem_nodes_of_mem_children m hn hc)
      · exact List.mem_append_right _ (mem_nodesAll_of_mem_children ms hn hc)

end

/-- The first match of a name when the matches of a level come first and those of the next level line
up behind them. -/
def firstFrom (name : String) (level next : List Match) : Option Match :=
  (level.find? (·.hasName name)).or (firstAmong name (next ++ level.flatMap children))

theorem firstFrom_nil (name : String) (next : List Match) :
    firstFrom name [] next = firstFrom name next [] := by
  simp only [firstFrom, List.find?_nil, Option.none_or, List.flatMap_nil, List.append_nil,
    List.nil_append]
  cases next with
  | nil => rfl
  | cons m ms =>
      rw [firstAmong]
      cases (m :: ms).find? (·.hasName name) <;> rfl

theorem firstFrom_cons_of_hasName {name : String} {m : Match} (h : m.hasName name = true)
    (level next : List Match) : firstFrom name (m :: level) next = some m := by
  simp [firstFrom, h]

theorem firstFrom_cons_of_not_hasName {name : String} {m : Match} (h : m.hasName name = false)
    (level next : List Match) :
    firstFrom name (m :: level) next = firstFrom name level (next ++ m.children) := by
  simp [firstFrom, h]

end Match

namespace View

/-! ## The walks -/

section Walks

variable (lib : Library) (source : List Char)

def select? (test : View → Option Bool) : List View → Option (List View)
  | [] => some []
  | node :: nodes => do
    let passes ← test node
    let others ← select? test nodes
    some (if passes then node :: others else others)

def find? (name : String) (deep : Bool) (v : View) : Option (List View) := do
  let nodes ← v.nodes? lib source
  let found ← select? (hasName? lib name) (nodes.map Subtype.val)
  if deep then
    let deeper ← nodes.mapM fun ⟨node, _⟩ => node.find? name true
    some (found ++ deeper.flatten)
  else some found
termination_by v.last

def namedMatches? (v : View) : Option (List View) := do
  let nodes ← v.nodes? lib source
  let named ← nodes.mapM fun ⟨node, _⟩ => do
    let names ← node.names? lib
    if names.isEmpty then node.namedMatches? else some [node]
  some named.flatten
termination_by v.last

/-- The first node of a name in a queue, behind which the nodes below those that were passed over line
up. -/
def firstAmong? (name : String) (queue : List View) : Option (Option View) :=
  match queue with
  | [] => some none
  | node :: queue => do
    if ← node.hasName? lib name then some (some node)
    else
      let nodes ← node.nodes? lib source
      firstAmong? name (queue ++ nodes.map Subtype.val)
termination_by (queue.map View.last : Multiset Nat)
decreasing_by
  -- a node makes way for nodes that end before it
  refine ⟨queue.map View.last, nodes.map fun below => below.1.last, {node.last},
    Multiset.singleton_ne_zero _, ?_, ?_, ?_⟩
  · simp
  · rw [List.map_cons, ← Multiset.cons_coe, add_comm, Multiset.singleton_add]
  · intro last hlast
    obtain ⟨below, -, rfl⟩ := List.mem_map.1 (Multiset.mem_coe.1 hlast)
    exact ⟨node.last, Multiset.mem_singleton_self _, below.2⟩

def first? (name : String) (v : View) : Option (Option View) := do
  firstAmong? lib source name ((← v.nodes? lib source).map Subtype.val)

/-- The space before a line of a depth. -/
def indentation : Nat → String
  | 0 => ""
  | depth + 1 => indentation depth ++ "  "

/-- Writes the lines of a node and of those below it behind others. -/
def dumpInto? (out : String) (depth : Nat) (v : View) : Option String := do
  let names ← v.names? lib
  let finish ← v.finish? source
  let text ← v.text? source
  let shown := if names.isEmpty then "<anonymous>" else ",".intercalate names
  let line := shown ++ " " ++ toString v.offset ++ ".." ++ toString finish ++ " " ++ Text.quote text
  let nodes ← v.nodes? lib source
  nodes.foldlM (fun out ⟨node, _⟩ => do
    let inner ← sumWithin? v.events.size depth 1
    node.dumpInto? out inner) (out ++ (indentation depth ++ line ++ "\n"))
termination_by v.last

def dump? (v : View) : Option String := dumpInto? lib source "" 0 v

end Walks

/-! ## Lists of nodes -/

theorem exists_mem_of_forall₂ {α β : Type} {rel : α → β → Prop} {xs : List α} {ys : List β}
    (h : List.Forall₂ rel xs ys) {x : α} (hx : x ∈ xs) : ∃ y ∈ ys, rel x y := by
  induction h with
  | nil => cases hx
  | @cons x' y xs ys hxy _ ih =>
      rcases List.mem_cons.1 hx with rfl | hx
      · exact ⟨y, List.mem_cons_self, hxy⟩
      · obtain ⟨y', hy', hrel⟩ := ih hx
        exact ⟨y', List.mem_cons_of_mem y hy', hrel⟩

theorem exists_mapM_eq_some {α β γ δ : Type} {rel : α → β → Prop} {rel' : γ → δ → Prop}
    {f : α → Option γ} {g : β → δ} {xs : List α} {ys : List β} (h : List.Forall₂ rel xs ys)
    (hf : ∀ x y, rel x y → ∃ z, f x = some z ∧ rel' z (g y)) :
    ∃ zs, xs.mapM f = some zs ∧ List.Forall₂ rel' zs (ys.map g) := by
  induction h with
  | nil => exact ⟨[], rfl, .nil⟩
  | @cons x y xs ys hxy _ ih =>
      obtain ⟨z, hz, hrel⟩ := hf x y hxy
      obtain ⟨zs, hzs, hall⟩ := ih
      refine ⟨z :: zs, ?_, .cons hrel hall⟩
      simp only [List.mapM_cons, hz, hzs, Option.bind_eq_bind, Option.bind_some, Option.pure_def]

theorem foldlM_append_eq_some {α β : Type} {rel : α → β → Prop} {f : String → α → Option String}
    {g : β → String} {xs : List α} {ys : List β} (h : List.Forall₂ rel xs ys)
    (hf : ∀ x y, rel x y → ∀ out, f out x = some (out ++ g y)) (out : String) :
    xs.foldlM f out = some (ys.foldl (fun out y => out ++ g y) out) := by
  induction h generalizing out with
  | nil => rfl
  | @cons x y xs ys hxy _ ih =>
      rw [List.foldlM_cons, hf x y hxy, List.foldl_cons]
      exact ih (out ++ g y)

section Read

variable {lib : Library} {source : List Char} {v : View} {m : Match}

theorem select?_eq_some {test : View → Option Bool} {test' : Match → Bool} {nodes : List View}
    {ms : List Match} (h : List.Forall₂ (Reads lib source) nodes ms)
    (htest : ∀ v m, v.Reads lib source m → test v = some (test' m)) :
    ∃ kept, select? test nodes = some kept ∧
      List.Forall₂ (Reads lib source) kept (ms.filter test') := by
  induction h with
  | nil => exact ⟨[], rfl, .nil⟩
  | @cons v m nodes ms hreads _ ih =>
      obtain ⟨kept, hkept, hall⟩ := ih
      simp only [select?, htest v m hreads, hkept, Option.bind_eq_bind, Option.bind_some]
      cases hpasses : test' m with
      | true => exact ⟨_, rfl, by rw [List.filter_cons_of_pos hpasses]; exact .cons hreads hall⟩
      | false => exact ⟨_, rfl, by rw [List.filter_cons_of_neg (by simp [hpasses])]; exact hall⟩

namespace Reads

theorem forall₂_val {nodes : List { node : View // node.last < v.last }} {ms : List Match}
    (h : List.Forall₂ (fun node m => v.start < node.1.start ∧ node.1.Reads lib source m) nodes ms) :
    List.Forall₂ (Reads lib source) (nodes.map Subtype.val) ms :=
  List.forall₂_map_left_iff.2 (h.imp fun _ _ hnode => hnode.2)

theorem find? (h : v.Reads lib source m) (name : String) (deep : Bool) :
    ∃ found, v.find? lib source name deep = some found ∧
      List.Forall₂ (Reads lib source) found (m.find name deep) := by
  induction hlast : v.last using Nat.strongRecOn generalizing v m deep with
  | ind last ih =>
      subst hlast
      obtain ⟨nodes, hnodes, hchildren⟩ := h.nodes?
      obtain ⟨found, hfound, hkept⟩ := select?_eq_some (forall₂_val hchildren)
        fun v m hreads => hreads.hasName? name
      obtain ⟨deeper, hdeeper, hbelow⟩ := exists_mapM_eq_some hchildren
        (f := fun node => node.1.find? lib source name true) (g := Match.findBelow name)
        fun node m hnode => ih node.1.last node.2 hnode.2 true rfl
      rw [View.find?.eq_def, hnodes, Option.bind_eq_bind, Option.bind_some, hfound]
      cases deep with
      | false => exact ⟨found, rfl, hkept⟩
      | true =>
          refine ⟨found ++ deeper.flatten, ?_, ?_⟩
          · simp only [Option.bind_eq_bind, Option.bind_some, if_true, hdeeper]
          · rw [Match.find, if_pos rfl, Match.findBelow_eq, Match.findBelowAll_eq]
            exact List.rel_append hkept (List.rel_flatten hbelow)

theorem namedMatches? (h : v.Reads lib source m) :
    ∃ named, v.namedMatches? lib source = some named ∧
      List.Forall₂ (Reads lib source) named m.namedMatches := by
  induction hlast : v.last using Nat.strongRecOn generalizing v m with
  | ind last ih =>
      subst hlast
      obtain ⟨nodes, hnodes, hchildren⟩ := h.nodes?
      have hfrom : ∀ (node : { node : View // node.last < v.last }) (m : Match),
          v.start < node.1.start ∧ node.1.Reads lib source m →
          ∃ named, (do
              let names ← node.1.names? lib
              if names.isEmpty then node.1.namedMatches? lib source else some [node.1]) =
                some named ∧
            List.Forall₂ (Reads lib source) named m.namedFrom := by
        intro node m hnode
        rw [hnode.2.names?, Option.bind_eq_bind, Option.bind_some, Match.namedFrom_eq]
        split
        · exact ih node.1.last node.2 hnode.2 rfl
        · exact ⟨_, rfl, .cons hnode.2 .nil⟩
      obtain ⟨named, hnamed, hall⟩ := exists_mapM_eq_some hchildren hfrom
      refine ⟨named.flatten, ?_, ?_⟩
      · rw [View.namedMatches?.eq_def, hnodes, Option.bind_eq_bind, Option.bind_some, hnamed]
        rfl
      · rw [Match.namedMatches, Match.namedFromAll_eq]
        exact List.rel_flatten hall

/-- The queue begins with views of what is left of a level, behind which those of the next level line
up. The induction is on the number of nodes in their trees. -/
theorem firstAmong? (name : String) {queue : List View} {level next : List Match}
    (h : List.Forall₂ (Reads lib source) queue (level ++ next)) :
    ∃ found, View.firstAmong? lib source name queue = some found ∧
      Option.Rel (Reads lib source) found (Match.firstFrom name level next) := by
  induction hsize : Match.sizeAll (level ++ next) using Nat.strongRecOn
    generalizing queue level next with
  | ind size ih =>
      -- where a level is done, the one behind it is the next to be searched
      wlog hlevel : level = [] → next = [] generalizing level next with hnext
      · obtain ⟨rfl, hne⟩ := Classical.not_imp.1 hlevel
        rw [Match.firstFrom_nil]
        rw [List.nil_append] at h hsize
        exact hnext (by rwa [List.append_nil]) (by rwa [List.append_nil]) fun hnil =>
          absurd hnil hne
      cases level with
      | nil =>
          obtain rfl := hlevel rfl
          cases h
          have hnone : Match.firstFrom name [] [] = none := by
            simp [Match.firstFrom, Match.firstAmong]
          rw [View.firstAmong?, hnone]
          exact ⟨none, rfl, .none⟩
      | cons m level =>
          cases h with
          | @cons v _ queue _ hreads hqueue =>
              rw [View.firstAmong?, hreads.hasName? name, Option.bind_eq_bind, Option.bind_some]
              cases hname : m.hasName name with
              | true =>
                  rw [Match.firstFrom_cons_of_hasName hname]
                  exact ⟨some v, rfl, .some hreads⟩
              | false =>
                  obtain ⟨nodes, hnodes, hchildren⟩ := hreads.nodes?
                  rw [Match.firstFrom_cons_of_not_hasName hname, hnodes]
                  have hlater : List.Forall₂ (Reads lib source) (queue ++ nodes.map Subtype.val)
                      (level ++ (next ++ m.children)) := by
                    rw [← List.append_assoc]
                    exact List.rel_append hqueue (forall₂_val hchildren)
                  refine ih _ ?_ hlater rfl
                  rw [← hsize]
                  simp only [List.cons_append, Match.sizeAll, Match.sizeAll_append, Match.size_eq m]
                  omega

theorem first? (h : v.Reads lib source m) (name : String) :
    ∃ found, v.first? lib source name = some found ∧
      Option.Rel (Reads lib source) found (m.first name) := by
  obtain ⟨nodes, hnodes, hchildren⟩ := h.nodes?
  have hqueue : List.Forall₂ (Reads lib source) (nodes.map Subtype.val) ([] ++ m.children) :=
    forall₂_val hchildren
  obtain ⟨found, hfound, hrel⟩ := firstAmong? name hqueue
  have hfirst : Match.firstFrom name [] m.children = m.first name := by
    simp only [Match.firstFrom, Match.first, List.find?_nil, Option.none_or, List.flatMap_nil,
      List.append_nil]
  rw [hfirst] at hrel
  refine ⟨found, ?_, hrel⟩
  rw [View.first?, hnodes]
  exact hfound

/-- The depth of a node is at most the number of events before it, each node on the way down to it
having opened with one. -/
theorem dumpInto? (h : v.Reads lib source m) (out : String) {depth : Nat}
    (hdepth : depth ≤ v.start) :
    v.dumpInto? lib source out depth = some (out ++ m.dumpAt (indentation depth)) := by
  induction hlast : v.last using Nat.strongRecOn generalizing v m out depth with
  | ind last ih =>
      subst hlast
      obtain ⟨nodes, hnodes, hchildren⟩ := h.nodes?
      have hstart := h.start_lt
      have hinner : sumWithin? v.events.size depth 1 = some (depth + 1) :=
        sumWithin?_eq_some (by omega)
      have hwrite : ∀ (node : { node : View // node.last < v.last }) (m : Match),
          v.start < node.1.start ∧ node.1.Reads lib source m → ∀ out : String, (do
            let inner ← sumWithin? v.events.size depth 1
            node.1.dumpInto? lib source out inner) =
              some (out ++ m.dumpAt (indentation depth ++ "  ")) := by
        intro node m hnode out
        rw [hinner, Option.bind_eq_bind, Option.bind_some]
        exact ih node.1.last node.2 hnode.2 out (by omega) rfl
      have hoffset := h.agrees.offset
      rw [View.dumpInto?.eq_def, h.names?, h.finish?, h.text?, hnodes]
      simp only [Option.bind_eq_bind, Option.bind_some]
      refine (foldlM_append_eq_some hchildren hwrite _).trans ?_
      rw [Match.foldl_dumpAt, Match.dumpAt_eq, hoffset]
      simp only [Match.line, Match.shownNames, String.append_assoc]

theorem dump? (h : v.Reads lib source m) : v.dump? lib source = some m.dump := by
  rw [View.dump?, h.dumpInto? "" (Nat.zero_le _), String.empty_append]
  rfl

end Reads

/-! ## All nodes -/

/-- What the node can be asked for passes the checks, and it is what the match tells. -/
structure Passes (lib : Library) (source : List Char) (v : View) (m : Match) : Prop where
  rule : v.rule? = some m.rule
  names : v.names? lib = some m.names
  text : v.text? source = some m.text
  length : v.length? = some m.length
  lineColumn : v.lineColumn? source = some m.lineColumn
  events : v.ownEvents? = some m.events
  children : ∃ nodes, v.below? lib source = some nodes ∧
    List.Forall₂ (Reads lib source) nodes m.children
  namedMatches : ∃ named, v.namedMatches? lib source = some named ∧
    List.Forall₂ (Reads lib source) named m.namedMatches
  find : ∀ name deep, ∃ found, v.find? lib source name deep = some found ∧
    List.Forall₂ (Reads lib source) found (m.find name deep)
  first : ∀ name, ∃ found, v.first? lib source name = some found ∧
    Option.Rel (Reads lib source) found (m.first name)
  dump : v.dump? lib source = some m.dump

theorem Reads.passes (h : v.Reads lib source m) : v.Passes lib source m where
  rule := h.agrees.rule
  names := h.names?
  text := h.text?
  length := h.agrees.length
  lineColumn := h.lineColumn?
  events := h.ownEvents?
  children := by
    obtain ⟨nodes, hnodes, -, hchildren⟩ := h.below?
    exact ⟨nodes, hnodes, hchildren⟩
  namedMatches := h.namedMatches?
  find := h.find?
  first := h.first?
  dump := h.dump?

/-- The nodes of a tree, reached by asking one node after the other for those below it. -/
inductive Descends (lib : Library) (source : List Char) (v : View) : View → Prop
  | refl : Descends lib source v v
  | down {w nodes node} : Descends lib source v w → w.below? lib source = some nodes →
      node ∈ nodes → Descends lib source v node

theorem Reads.descends (h : v.Reads lib source m) {w : View} (hw : v.Descends lib source w) :
    ∃ n ∈ m.nodes, w.Reads lib source n := by
  induction hw with
  | refl => exact ⟨m, m.mem_nodes_self, h⟩
  | @down w nodes node _ hnodes hnode ih =>
      obtain ⟨n, hn, hreads⟩ := ih
      obtain ⟨nodes', hnodes', -, hchildren⟩ := hreads.below?
      cases hnodes.symm.trans hnodes'
      obtain ⟨child, hchild, hread⟩ := exists_mem_of_forall₂ hchildren hnode
      exact ⟨child, m.mem_nodes_of_mem_children hn hchild, hread⟩

end Read

end View

end Peg
