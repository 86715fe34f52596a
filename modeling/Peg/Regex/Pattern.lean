import Peg.Regex.Pattern.Class

/-!
# Reading patterns

The written form of regular expressions. Special characters are `\ . + * ? ( ) | [ ] { } ^ $`; a
closing bracket or brace that closes nothing stands for itself. Groups may be named, named by
`?P<name>` too, or carry flags. References to groups and conditions on longer parts of the text around
a match are refused, and so is a pattern in which more than 250 groups, classes, repetitions, choices
and sequences are nested.

Flags hold until the end of the group that they are set in, and reading keeps a stack of the groups
that are open. Every round of the reading loops passes over at least one character, so the length of
the pattern bounds their number.
-/

namespace Peg.Regex.Pattern

/-! ## Repetitions -/

def digits (flags : Flags) : Nat → List Char → List Char → List Char × List Char
  | 0, read, cs => (read.reverse, cs)
  | fuel + 1, read, cs =>
    match cs with
    | c :: rest => if c.isDigit then digits flags fuel (c :: read) (flags.skip rest) else (read.reverse, cs)
    | [] => (read.reverse, cs)

def count? (fuel : Nat) (flags : Flags) (cs : List Char) : Option (Option Nat × List Char) :=
  let (read, rest) := digits flags fuel [] (cs.dropWhile Unicode.isSpace)
  let value := read.foldl (fun n c => n * 10 + (c.toNat - '0'.toNat)) 0
  let rest := rest.dropWhile Unicode.isSpace
  if read.isEmpty then some (none, flags.skip rest)
  else if value < 0x100000000 then some (some value, flags.skip rest)
  else none

def bounds? (fuel : Nat) (flags : Flags) (cs : List Char) :
    Option (Nat × Option Nat × List Char) := do
  let (least, rest) ← count? fuel flags (flags.skip cs)
  match rest with
  | '}' :: rest => do
    let least ← least
    some (least, some least, rest)
  | ',' :: rest =>
    match flags.skip rest with
    | '}' :: rest => do
      let least ← least
      some (least, none, rest)
    | rest => do
      let least ← least
      let (most, rest) ← count? fuel flags rest
      let most ← most
      match rest with
      | '}' :: rest => if least ≤ most then some (least, some most, rest) else none
      | _ => none
  | _ => none

/-- The greed of a repetition, which a question mark after it turns round. -/
def greed (flags : Flags) : List Char → Bool × List Char
  | '?' :: rest => (flags.swapGreed, rest)
  | rest => (!flags.swapGreed, rest)

/-! ## Groups -/

inductive Opening where
  | capture (name : Option (List Char))
  | plain (flags : Flags)
  | directive (flags : Flags)

/-- The letters of a flag group up to its end, with the letters seen before. -/
def flagLetters? : Flags → Bool → List Char → List Char → Option (Opening × List Char)
  | _, _, _, [] => none
  | flags, on, seen, c :: rest =>
    if c = ':' then if seen.head? = some '-' then none else some (.plain flags, rest)
    else if c = ')' then
      if seen.isEmpty || seen.head? = some '-' then none else some (.directive flags, rest)
    else if seen.contains c then none
    else if c = '-' then flagLetters? flags false (c :: seen) rest
    else do
      let flags ← flags.set? on c
      flagLetters? flags on (c :: seen) rest

/-- A group name, from after its opening bracket. -/
def groupName? (cs : List Char) : Option (List Char × List Char) :=
  let name := cs.takeWhile (· ≠ '>')
  match name, cs.dropWhile (· ≠ '>') with
  | first :: more, _ :: rest =>
    if isNameStart first && more.all isNamePart then some (name, rest) else none
  | _, _ => none
where
  isNameStart (c : Char) : Bool := c = '_' || Unicode.isLetter c
  isNamePart (c : Char) : Bool :=
    c = '_' || c = '.' || c = '[' || c = ']' || Unicode.isLetterOrNumber c

/-- The opening of a group, from after its parenthesis. -/
def opening? (flags : Flags) (cs : List Char) : Option (Opening × List Char) :=
  match flags.skip cs with
  | '?' :: 'P' :: '<' :: rest => named rest
  | '?' :: '<' :: rest => named rest
  | '?' :: rest => flagLetters? flags true [] rest
  | rest => some (.capture none, rest)
where
  named (cs : List Char) : Option (Opening × List Char) :=
    (groupName? cs).map fun (name, rest) => (.capture (some name), rest)

/-- A part of a pattern, with the number of groups, classes, repetitions, choices and sequences that
are nested in it. -/
structure Part where
  regex : Regex
  depth : Nat

namespace Part

def deepest : Nat := 250

def ofSequence : List Part → Part
  | [] => ⟨.empty, 0⟩
  | [part] => part
  | parts =>
    ⟨.ofParts (parts.reverse.map regex), (parts.map depth).foldl Bracket.larger 0 + 1⟩

def ofChoice : List Part → Part
  | [] => ⟨.fail, 0⟩
  | [part] => part
  | parts =>
    ⟨.ofOptions (parts.reverse.map regex), (parts.map depth).foldl Bracket.larger 0 + 1⟩

end Part

/-- A group whose end has not been read: the flags outside it, its number if it captures, the options
before the current one and the parts of that one, latest first. -/
structure Open where
  outerFlags : Flags
  number : Option Nat
  options : List Part := []
  parts : List Part := []
  /-- Whether the latest part can be repeated. A directive cannot. -/
  repeatable : Bool := false

namespace Open

def add (g : Open) (r : Regex) (depth : Nat) : Open :=
  { g with parts := ⟨r, depth⟩ :: g.parts, repeatable := true }

def addDirective (g : Open) : Open :=
  { g with parts := ⟨.empty, 0⟩ :: g.parts, repeatable := false }

def nextOption (g : Open) : Open :=
  { g with options := .ofSequence g.parts :: g.options, parts := [], repeatable := false }

def inside (g : Open) : Part := .ofChoice (.ofSequence g.parts :: g.options)

def closeInto (g parent : Open) : Open :=
  let inside := g.inside
  let regex := match g.number with
    | some n => .group n inside.regex
    | none => inside.regex
  parent.add regex (inside.depth + 1)

/-- Puts the last part under a repetition, none if there is nothing to repeat or it is nested too
deep already. -/
def repeated? (g : Open) (least : Nat) (most : Option Nat) (greedy : Bool) : Option Open :=
  match g.repeatable, g.parts with
  | true, part :: parts =>
    if part.depth < Part.deepest then
      some { g with parts := ⟨.repeated least most greedy part.regex, part.depth + 1⟩ :: parts }
    else none
  | _, _ => none

end Open

def Escaped.toRegex (flags : Flags) : Escaped → Regex
  | .literal c => flags.literal c
  | .set s => .ofSet (flags.charSet s)
  | .look l => .look l

/-- Reads a pattern to its end, `g` being the innermost open group, `names` the names of groups so far
and `groups` the number of groups that capture. -/
def readGroups : Nat → Flags → List (List Char) → Nat → Open → List Open → List Char → Option Part
  | 0, _, _, _, _, _, _ => none
  | fuel + 1, flags, names, groups, g, outer, cs =>
    match flags.skip cs with
    | [] => if outer.isEmpty then some g.inside else none
    | c :: rest =>
      match c with
      | '(' => do
        let (opening, rest) ← opening? flags rest
        match opening with
        | .directive flags => readGroups fuel flags names groups g.addDirective outer rest
        | .plain inner =>
          readGroups fuel inner names groups { outerFlags := flags, number := none } (g :: outer) rest
        | .capture name =>
          if name.any names.contains then none
          else
            readGroups fuel flags (name.toList ++ names) (groups + 1)
              { outerFlags := flags, number := some (groups + 1) } (g :: outer) rest
      | ')' =>
        match outer with
        | [] => none
        | parent :: outer =>
          readGroups fuel g.outerFlags names groups (g.closeInto parent) outer rest
      | '|' => readGroups fuel flags names groups g.nextOption outer rest
      | '[' => do
        let (s, depth, rest) ← class? fuel flags rest
        readGroups fuel flags names groups (g.add (.ofSet (flags.charSet s)) depth) outer rest
      | '?' => do
        let (greedy, rest) := greed flags rest
        readGroups fuel flags names groups (← g.repeated? 0 (some 1) greedy) outer rest
      | '*' => do
        let (greedy, rest) := greed flags rest
        readGroups fuel flags names groups (← g.repeated? 0 none greedy) outer rest
      | '+' => do
        let (greedy, rest) := greed flags rest
        readGroups fuel flags names groups (← g.repeated? 1 none greedy) outer rest
      | '{' => do
        let (least, most, rest) ← bounds? fuel flags rest
        let (greedy, rest) := greed flags (flags.skip rest)
        readGroups fuel flags names groups (← g.repeated? least most greedy) outer rest
      | '\\' => do
        let (escaped, rest) ← escape? fuel flags rest
        readGroups fuel flags names groups (g.add (escaped.toRegex flags) 0) outer rest
      | '.' => do
        readGroups fuel flags names groups (g.add (← flags.dot?) 0) outer rest
      | '^' => readGroups fuel flags names groups (g.add (.look flags.lineStart) 0) outer rest
      | '$' => readGroups fuel flags names groups (g.add (.look flags.lineEnd) 0) outer rest
      | c => readGroups fuel flags names groups (g.add (flags.literal c) 0) outer rest

end Pattern

/-- The expression that a pattern stands for, none if the pattern is malformed. -/
def ofPattern? (pattern : List Char) : Option Regex := do
  let whole : Pattern.Open := { outerFlags := {}, number := none }
  let part ← Pattern.readGroups (pattern.length + 1) {} [] 0 whole [] pattern
  if part.depth ≤ Pattern.Part.deepest then some part.regex else none

end Peg.Regex
