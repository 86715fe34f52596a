import Peg.Regex.Basic
import Peg.Unicode.Bytes

/-!
# Sizes

An expression is run by automata that read bytes, one forward from the start of a match and one
backward from its end. The size of such an automaton is bounded: a state counts 32 bytes, a byte range
that leads from one state to another counts 8 more, and a way that a split may take counts 4. What
would need more than 10 MiB in one of the two directions is too large.

A set of characters outside ASCII becomes, forward, the least automaton for its byte sequences; backward,
sequences share a state as long as they begin alike. A choice among literals becomes a tree of bytes.
-/

namespace Peg.Regex

def cost (states ranges ways : Nat) : Nat := 32 * states + 8 * ranges + 4 * ways

/-! ## Sets -/

/-- Byte sequences that begin alike, as their first range and what follows it in each. -/
abbrev Branch := (Nat × Nat) × List Unicode.ByteRanges

def consBranch (sequence : Unicode.ByteRanges) (branches : List Branch) : List Branch :=
  match sequence, branches with
  | [], branches => branches
  | r :: rest, (r', rests) :: branches =>
    if r = r' then (r, rest :: rests) :: branches else (r, [rest]) :: (r', rests) :: branches
  | r :: rest, [] => [(r, [rest])]

def branches (sequences : List Unicode.ByteRanges) : List Branch := sequences.foldr consBranch []

/-- A state of a least automaton: its ranges and the numbers of the states that they lead to. -/
abbrev Node := List ((Nat × Nat) × Nat)

/-- The number of a state, with the state added to the list if it is not there. The final state has the
number 0. -/
def numbered (node : Node) (nodes : List Node) : Nat × List Node :=
  match nodes.findIdx? (· == node) with
  | some i => (nodes.length - i, nodes)
  | none => (nodes.length + 1, node :: nodes)

/-- The number of the state that byte sequences of length below `fuel` begin in, with all states. -/
def leastStates : Nat → List Unicode.ByteRanges → List Node → Nat × List Node
  | 0, _, nodes => (0, nodes)
  | fuel + 1, sequences, nodes =>
    match branches sequences with
    | [] => (0, nodes)
    | branches =>
      let (node, nodes) := branches.foldl
        (fun (state : Node × List Node) (branch : Branch) =>
          let (n, nodes) := leastStates fuel branch.2 state.2
          ((branch.1, n) :: state.1, nodes))
        ([], nodes)
      numbered node nodes

/-- The number of beginnings that byte sequences of length below `fuel` have. -/
def beginnings : Nat → List Unicode.ByteRanges → Nat
  | 0, _ => 0
  | fuel + 1, sequences =>
    ((branches sequences).map fun branch => 1 + beginnings fuel branch.2).sum

def setSize (forward : Bool) (s : CharSet) : Nat :=
  if s.ranges.all (fun r => r.2 < 128) then cost 2 s.ranges.length 0
  else
    let sequences := Unicode.ByteRanges.ofRanges s.ranges
    if forward then
      let nodes := (leastStates 5 sequences []).2
      cost (1 + nodes.length) (nodes.foldl (fun n node => n + node.length) 0) 0
    else cost (2 + beginnings 5 sequences) 0 sequences.length

/-! ## Choices among literals -/

/-- The words up to the first empty one, and those after it if there is one. -/
def untilEmpty : List (List Nat) → List (List Nat) × Option (List (List Nat))
  | [] => ([], none)
  | [] :: words => ([], some words)
  | word :: words =>
    let (chunk, rest) := untilEmpty words
    (word :: chunk, rest)

def chunks : Nat → List (List Nat) → List (List (List Nat))
  | 0, _ => []
  | fuel + 1, words =>
    match untilEmpty words with
    | (chunk, none) => [chunk]
    | (chunk, some words) => chunk :: chunks fuel words

def byFirst (chunk : List (List Nat)) : List (List (List Nat)) :=
  ((chunk.filterMap List.head?).eraseDups).map fun byte =>
    chunk.filterMap fun word => if word.head? = some byte then some word.tail else none

/-- The size of the tree of words that have fewer than `fuel` bytes, one of which is not empty. -/
def treeSize : Nat → List (List Nat) → Nat
  | 0, _ => 0
  | fuel + 1, words =>
    let parts := chunks (words.length + 1) words
    let children := (parts.filter (!·.isEmpty)).map byFirst
    let ranges := (children.map fun bytes => if bytes.length < 2 then 0 else bytes.length).sum
    let inner := children.flatten.filter (·.any (!·.isEmpty))
    cost (1 + children.length) ranges (parts.length - 1 + children.length) +
      (inner.map (treeSize fuel)).sum

def literalBytes? : Regex → Option (List Nat)
  | literal chars => some (chars.flatMap fun c => Unicode.ByteRanges.encode c.toNat)
  | _ => none

def choiceSize (forward : Bool) (options : List Regex) (sizes : Nat) : Nat :=
  match options.mapM literalBytes? with
  | some words =>
    let longest := words.foldl (fun n word => if n < word.length then word.length else n) 0
    cost 1 0 0 + treeSize (longest + 1) (if forward then words else words.map List.reverse)
  | none => cost 2 0 options.length + sizes

/-! ## Expressions -/

mutual

def size (forward : Bool) : Regex → Nat
  | empty => cost 1 0 0
  | literal chars => cost ((chars.map Char.utf8Size).sum) 0 0
  | set s => setSize forward s
  | look _ => cost 1 0 0
  | group _ body => (if forward then cost 2 0 0 else 0) + size forward body
  | seq parts => sizes forward parts
  | alt options => choiceSize forward options (sizes forward options)
  | times 0 (some 1) _ body => size forward body + cost 2 0 2
  | times 0 none _ body =>
    size forward body + (if body.neverEmpty then cost 1 0 2 else cost 3 0 4)
  | times least none _ body => least * size forward body + cost 1 0 2
  | times least (some most) _ body =>
    (if least = 0 then cost 1 0 0 else least * size forward body) +
      (if least < most then cost 1 0 0 + (most - least) * (size forward body + cost 1 0 2) else 0)

def sizes (forward : Bool) : List Regex → Nat
  | [] => 0
  | r :: rs => size forward r + sizes forward rs

end

/-- The size of an automaton with what it does before and after the expression. Where the expression
does not begin at the end of the text that the automaton starts from, it may pass over any bytes. -/
def automatonSize (forward : Bool) (r : Regex) : Nat :=
  let fixed := if forward then r.startsAtText else r.endsAtText
  (if fixed then cost 1 0 0 else cost 3 1 2) + (if forward then cost 3 0 0 else cost 1 0 0) +
    size forward r

def isSmall (r : Regex) : Bool := [true, false].all fun forward => automatonSize forward r ≤ 10485760

end Peg.Regex
