import Peg.Regex.Pattern.Escape

/-!
# Classes in brackets

A class lists characters, ranges, escapes and further classes, `^` at its beginning negates it, and
`&&`, `--` and `~~` make it the common part, the difference or the symmetric difference of what stands
around them. Operators group to the left. Case is folded for every class as a whole, before it is
negated.

A class knows how deep the classes, lists and operators in it are nested.
-/

namespace Peg.Regex.Pattern

/-- An open bracket: the sets listed since it or since its last operator, and what the operators
before make of the rest. -/
structure Bracket where
  negated : Bool
  sets : List Unicode.Ranges := []
  depth : Nat := 0
  before : Option ((Unicode.Ranges → Unicode.Ranges) × Nat) := none

namespace Bracket

def larger (a b : Nat) : Nat := if a < b then b else a

def add (b : Bracket) (s : Unicode.Ranges) (depth : Nat) : Bracket :=
  { b with sets := s :: b.sets, depth := larger b.depth depth }

def addChar (b : Bracket) (c : Char) : Bracket := b.add [(c.toNat, c.toNat)] 0

def value (b : Bracket) (flags : Flags) : Unicode.Ranges :=
  let s := flags.fold (.unions b.sets)
  match b.before with
  | some (operate, _) => operate s
  | none => s

def valueDepth (b : Bracket) : Nat :=
  let listed := if b.sets.length < 2 then b.depth else b.depth + 1
  match b.before with
  | some (_, depth) => larger depth listed + 1
  | none => listed

def operator (b : Bracket) (flags : Flags)
    (op : Unicode.Ranges → Unicode.Ranges → Unicode.Ranges) : Bracket :=
  { negated := b.negated, before := some (op (b.value flags), b.valueDepth) }

def close? (b : Bracket) (flags : Flags) : Option (Unicode.Ranges × Nat) :=
  (flags.signed? b.negated (b.value flags)).map (·, b.valueDepth + 1)

end Bracket

/-- Hyphens directly after the opening of a bracket stand for themselves. -/
def leadingHyphens (flags : Flags) : Nat → Bracket → List Char → Bracket × List Char
  | 0, b, cs => (b, cs)
  | fuel + 1, b, cs =>
    match cs with
    | '-' :: rest => leadingHyphens flags fuel (b.addChar '-') (flags.skip rest)
    | _ => (b, cs)

/-- What follows an opening bracket: a negation, hyphens, and a closing bracket that stands for
itself if nothing came before it. -/
def openBracket (fuel : Nat) (flags : Flags) (cs : List Char) : Bracket × List Char :=
  let cs := flags.skip cs
  let (negated, cs) := match cs with
    | '^' :: rest => (true, flags.skip rest)
    | cs => (false, cs)
  let (b, cs) := leadingHyphens flags fuel { negated } cs
  match b.sets, cs with
  | [], ']' :: rest => (b.addChar ']', flags.skip rest)
  | _, cs => (b, cs)

/-- The name of a class such as `[:alpha:]` and whether it is negated, from after its opening
bracket. -/
def asciiName? : List Char → Option (Bool × Unicode.Ranges × List Char)
  | ':' :: cs =>
    let (negated, cs) := match cs with
      | '^' :: rest => (true, rest)
      | cs => (false, cs)
    match cs.dropWhile (· ≠ ':') with
    | ':' :: ']' :: rest =>
      (CharSet.asciiClass? (String.ofList (cs.takeWhile (· ≠ ':')))).map (negated, ·, rest)
    | _ => none
  | _ => none

/-- One character or class inside brackets. -/
def classItem? (fuel : Nat) (flags : Flags) : List Char → Option (Escaped × List Char)
  | [] => none
  | '\\' :: rest => escape? fuel flags rest
  | c :: rest => some (.literal c, rest)

def single? : Escaped → Option Unicode.Ranges
  | .literal c => some [(c.toNat, c.toNat)]
  | .set s => some s
  | .look _ => none

/-- One character, range or class inside brackets. A hyphen before a closing bracket or another
hyphen makes no range. -/
def classRange? (fuel : Nat) (flags : Flags) (cs : List Char) :
    Option (Unicode.Ranges × List Char) := do
  let (item, rest) ← classItem? fuel flags cs
  match flags.skip rest with
  | '-' :: afterHyphen =>
    let following := flags.peek afterHyphen
    if following = some ']' || following = some '-' then some (← single? item, '-' :: afterHyphen)
    else
      let (last, rest) ← classItem? fuel flags (flags.skip afterHyphen)
      match item, last with
      | .literal first, .literal last =>
        if first ≤ last then some ([(first.toNat, last.toNat)], rest) else none
      | _, _ => none
  | rest => some (← single? item, rest)

/-- Reads up to the bracket that closes the outermost of the open ones. -/
def readClass (flags : Flags) : Nat → Bracket → List Bracket → List Char →
    Option (Unicode.Ranges × Nat × List Char)
  | 0, _, _, _ => none
  | fuel + 1, b, outer, cs =>
    match flags.skip cs with
    | [] => none
    | '[' :: rest =>
      match asciiName? rest with
      | some (negated, s, rest) => do
        let s ← flags.signed? negated (flags.fold s)
        readClass flags fuel (b.add s 0) outer rest
      | none =>
        let (inner, rest) := openBracket fuel flags rest
        readClass flags fuel inner (b :: outer) rest
    | ']' :: rest => do
      let (s, depth) ← b.close? flags
      match outer with
      | [] => some (s, depth, rest)
      | parent :: outer => readClass flags fuel (parent.add s depth) outer rest
    | '&' :: '&' :: rest => readClass flags fuel (b.operator flags .inter) outer rest
    | '-' :: '-' :: rest => readClass flags fuel (b.operator flags .diff) outer rest
    | '~' :: '~' :: rest => readClass flags fuel (b.operator flags .symmDiff) outer rest
    | cs => do
      let (s, rest) ← classRange? fuel flags cs
      let s ← flags.allowed? s
      readClass flags fuel (b.add s 0) outer rest

/-- A class with its depth, from after its opening bracket. -/
def class? (fuel : Nat) (flags : Flags) (cs : List Char) :
    Option (Unicode.Ranges × Nat × List Char) :=
  let (b, rest) := openBracket fuel flags cs
  readClass flags fuel b [] rest

end Peg.Regex.Pattern
