import Peg.Derivation
import Peg.Text.Position
import Peg.Value

/-!
# Matches

The tree that a successful parse is read as. A node stands for a rule that is no mere wrapper,
together with the wrappers around it: its chain lists them from the outside in, and all their names
are names of the node. A node can also be asked for the members that the rules of its chain define.
-/

namespace Peg

/-- What a node of a match tree is, apart from its children: the text it belongs to, the place where
it begins, the derivation that it was read from, the rules on its chain and their names. -/
structure Node where
  source : List Char
  place : Place
  derivation : Derivation
  primary : RuleRef
  names : List String

inductive Match where
  | mk (node : Node) (member : String → Option Value) (children : List Match)

namespace Match

def node : Match → Node
  | mk node _ _ => node

def children : Match → List Match
  | mk _ _ children => children

/-- The value of a member, none if no rule of the chain has it. -/
def call (m : Match) (member : String) : Option Value :=
  match m with
  | mk _ call _ => call member

/-- The rule the node stands for, inside all wrappers. -/
def rule (m : Match) : RuleRef := m.node.primary

/-- Rule names and labels, outermost first and each once. -/
def names (m : Match) : List String := m.node.names

def hasName (m : Match) (name : String) : Bool := m.names.contains name

def isNamed (m : Match) : Bool := !m.names.isEmpty

def offset (m : Match) : Nat := m.node.place.offset

def length (m : Match) : Nat := m.node.derivation.length

def finish (m : Match) : Nat := m.offset + m.length

def text (m : Match) : String := String.ofList (takeBytes m.length m.node.place.rest)

def events (m : Match) : Array Event := m.node.derivation.events

/-- Line and column of the beginning, both counted from one. -/
def lineColumn (m : Match) : Nat × Nat :=
  ((Position.at? m.node.source m.offset).map Position.lineColumn).getD (1, 1)

/-- The `value` member, or the text if there is none. -/
def value (m : Match) : Value := (m.call "value").getD (.string m.text)

/-- Two matches are the same if they cover the same place of the same text by the same events. -/
def same (a b : Match) : Bool :=
  a.node.source == b.node.source && a.offset == b.offset && a.events == b.events

mutual

def size : Match → Nat
  | mk _ _ children => sizeAll children + 1

def sizeAll : List Match → Nat
  | [] => 0
  | m :: ms => m.size + sizeAll ms

end

theorem size_eq (m : Match) : m.size = sizeAll m.children + 1 := by
  cases m
  simp [size, children]

theorem sizeAll_append (xs ys : List Match) : sizeAll (xs ++ ys) = sizeAll xs + sizeAll ys := by
  induction xs with
  | nil => simp [sizeAll]
  | cons x xs ih => simp [sizeAll, ih, Nat.add_assoc]

/-- Going down one level loses a node for every match of the level. -/
theorem sizeAll_flatMap_children (ms : List Match) :
    sizeAll (ms.flatMap children) + ms.length = sizeAll ms := by
  induction ms with
  | nil => rfl
  | cons m ms ih =>
    simp only [List.flatMap_cons, sizeAll_append, List.length_cons, sizeAll, size_eq m]
    omega

end Match

end Peg
