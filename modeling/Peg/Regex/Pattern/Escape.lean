import Peg.Regex.Pattern.Flags
import Peg.Unicode.Class

/-!
# Escapes

What a backslash and the characters after it stand for: a character by its code or by a letter, a
class of characters, a condition, or a punctuation mark that has lost its special meaning.

Readers that loop are given `fuel`, a bound on the number of characters that are left.
-/

namespace Peg.Regex.Pattern

inductive Escaped where
  | literal (c : Char)
  | set (s : Unicode.Ranges)
  | look (condition : Look)

/-! ## Characters by code -/

def hexDigit? (c : Char) : Option Nat :=
  if '0' ≤ c && c ≤ '9' then some (c.toNat - '0'.toNat)
  else if 'a' ≤ c && c ≤ 'f' then some (c.toNat - 'a'.toNat + 10)
  else if 'A' ≤ c && c ≤ 'F' then some (c.toNat - 'A'.toNat + 10)
  else none

def charOf? (n : Nat) : Option Char :=
  if n.isValidChar then some (Char.ofNat n) else none

def bracedHex? (flags : Flags) : Nat → Bool → Nat → List Char → Option (Char × List Char)
  | 0, _, _, _ => none
  | fuel + 1, some?, value, cs =>
    match flags.skip cs with
    | [] => none
    | '}' :: rest => if some? then (charOf? value).map (·, rest) else none
    | c :: rest => do
      let digit ← hexDigit? c
      bracedHex? flags fuel true (value * 16 + digit) rest

def fixedHex? (flags : Flags) : Nat → Nat → List Char → Option (Char × List Char)
  | 0, value, cs => (charOf? value).map (·, cs)
  | n + 1, value, cs =>
    match flags.skip cs with
    | [] => none
    | c :: rest => do
      let digit ← hexDigit? c
      fixedHex? flags n (value * 16 + digit) rest

/-- A code point in hexadecimal, in braces or with `width` digits. Two digits above `7F` stand for a
byte where characters outside ASCII do not count, and are refused there. -/
def hex? (fuel : Nat) (flags : Flags) (width : Nat) (cs : List Char) :
    Option (Escaped × List Char) := do
  match flags.skip cs with
  | '{' :: rest =>
    let (c, rest) ← bracedHex? flags fuel false 0 rest
    some (.literal c, rest)
  | rest =>
    let (c, rest) ← fixedHex? flags width 0 rest
    if width = 2 && !flags.unicode && 128 ≤ c.toNat then none else some (.literal c, rest)

/-! ## Classes -/

/-- A class of a letter such as `d`, or its complement. -/
def letterClass? (flags : Flags) (negated : Bool) (s : Unicode.Ranges) (name : String) :
    Option Escaped := do
  let s ← if flags.unicode then some s else CharSet.asciiClass? name
  (flags.signed? negated s).map .set

/-- The characters up to a closing brace, blanks ignored in an extended pattern. -/
def bracedName? (flags : Flags) : Nat → List Char → List Char → Option (List Char × List Char)
  | 0, _, _ => none
  | fuel + 1, read, cs =>
    match flags.skip cs with
    | [] => none
    | '}' :: rest => some (read.reverse, rest)
    | c :: rest => bracedName? flags fuel (c :: read) rest

def splitAt? (mark : List Char) : List Char → List Char → Option (List Char × List Char)
  | _, [] => none
  | before, c :: cs =>
    if mark.isPrefixOf (c :: cs) then some (before.reverse, (c :: cs).drop mark.length)
    else splitAt? mark (c :: before) cs

/-- The class that the text between braces names. An unequal sign does not negate it. -/
def property? (name : List Char) : Option Unicode.Ranges :=
  match ((splitAt? ['!', '='] [] name).or (splitAt? [':'] [] name)).or (splitAt? ['='] [] name) with
  | some (property, value) => Unicode.Class.valued? property value
  | none => Unicode.Class.named? name

/-- A class by property, from after the letter `p`. -/
def propertyClass? (fuel : Nat) (flags : Flags) (negated : Bool) (cs : List Char) :
    Option (Escaped × List Char) := do
  let (name, rest) ← match flags.skip cs with
    | '{' :: rest => bracedName? flags fuel [] rest
    | c :: rest => some ([c], rest)
    | [] => none
  if flags.unicode && name ≠ ['\\'] then
    let s := flags.fold (← property? name)
    some (.set (if negated then .compl s else s), rest)
  else none

/-! ## Conditions on words -/

/-- The name of a condition in braces: letters and hyphens up to the closing brace. -/
def lookName? (flags : Flags) : Nat → List Char → List Char → Option (String × List Char)
  | 0, _, _ => none
  | fuel + 1, read, cs =>
    match cs with
    | [] => none
    | '}' :: rest => some (String.ofList read.reverse, rest)
    | c :: rest =>
      if c.isAlpha || c = '-' then lookName? flags fuel (c :: read) (flags.skip rest) else none

/-- A condition on word boundaries, from after the letter `b`. Braces that do not begin with a letter
or a hyphen belong to a repetition. -/
def boundary? (fuel : Nat) (flags : Flags) (cs : List Char) : Option (WordLook × List Char) :=
  match cs with
  | '{' :: rest =>
    match flags.skip rest with
    | [] => none
    | c :: rest =>
      if c.isAlpha || c = '-' then do
        let (name, rest) ← lookName? flags fuel [] (c :: rest)
        match name with
        | "start" => some (.start, rest)
        | "end" => some (.stop, rest)
        | "start-half" => some (.startHalf, rest)
        | "end-half" => some (.stopHalf, rest)
        | _ => none
      else some (.boundary, cs)
  | cs => some (.boundary, cs)

/-! ## All escapes -/

/-- ASCII characters that a backslash leaves as they are. -/
def isEscapable (c : Char) : Bool :=
  c.toNat < 128 && !c.isAlphanum && c ≠ '<' && c ≠ '>'

def escape? (fuel : Nat) (flags : Flags) : List Char → Option (Escaped × List Char)
  | [] => none
  | c :: rest =>
    match c with
    | 'x' => hex? fuel flags 2 rest
    | 'u' => hex? fuel flags 4 rest
    | 'U' => hex? fuel flags 8 rest
    | 'p' => propertyClass? fuel flags false rest
    | 'P' => propertyClass? fuel flags true rest
    | 'd' => (letterClass? flags false Unicode.Category.nd "digit").map (·, rest)
    | 'D' => (letterClass? flags true Unicode.Category.nd "digit").map (·, rest)
    | 's' => (letterClass? flags false Unicode.space "space").map (·, rest)
    | 'S' => (letterClass? flags true Unicode.space "space").map (·, rest)
    | 'w' => (letterClass? flags false Unicode.word "word").map (·, rest)
    | 'W' => (letterClass? flags true Unicode.word "word").map (·, rest)
    | 'a' => some (.literal '\x07', rest)
    | 'f' => some (.literal '\x0c', rest)
    | 't' => some (.literal '\t', rest)
    | 'n' => some (.literal '\n', rest)
    | 'r' => some (.literal '\r', rest)
    | 'v' => some (.literal '\x0b', rest)
    | 'A' => some (.look .textStart, rest)
    | 'z' => some (.look .textEnd, rest)
    | 'b' => (boundary? fuel flags rest).map fun (b, rest) => (.look (.word b flags.unicode), rest)
    | 'B' => some (.look (.word .noBoundary flags.unicode), rest)
    | '<' => some (.look (.word .start flags.unicode), rest)
    | '>' => some (.look (.word .stop flags.unicode), rest)
    | c => if isEscapable c then some (.literal c, rest) else none

end Peg.Regex.Pattern
