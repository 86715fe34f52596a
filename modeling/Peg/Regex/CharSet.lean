import Peg.Unicode.Case
import Peg.Unicode.Word

/-!
# Sets of characters

What one character of a regular expression can stand for. A set that was written where only ASCII
counts is told apart from a set that was not, even if both have the same characters.
-/

namespace Peg

structure CharSet where
  ranges : Unicode.Ranges
  ascii : Bool := false
deriving DecidableEq

namespace CharSet

def contains (s : CharSet) (c : Char) : Bool := s.ranges.contains c.toNat

def ofChar (c : Char) : CharSet := { ranges := [(c.toNat, c.toNat)] }

/-- The only character of a set that is one range of one character. -/
def char? (s : CharSet) : Option Char :=
  match s.ranges with
  | [(first, last)] => if first = last then some (Char.ofNat first) else none
  | _ => none

/-- The characters of a class such as `[:alpha:]`. -/
def asciiClass? : String → Option Unicode.Ranges
  | "alnum" => some [(0x30, 0x39), (0x41, 0x5a), (0x61, 0x7a)]
  | "alpha" => some [(0x41, 0x5a), (0x61, 0x7a)]
  | "ascii" => some [(0x0, 0x7f)]
  | "blank" => some [(0x9, 0x9), (0x20, 0x20)]
  | "cntrl" => some [(0x0, 0x1f), (0x7f, 0x7f)]
  | "digit" => some [(0x30, 0x39)]
  | "graph" => some [(0x21, 0x7e)]
  | "lower" => some [(0x61, 0x7a)]
  | "print" => some [(0x20, 0x7e)]
  | "punct" => some [(0x21, 0x2f), (0x3a, 0x40), (0x5b, 0x60), (0x7b, 0x7e)]
  | "space" => some [(0x9, 0xd), (0x20, 0x20)]
  | "upper" => some [(0x41, 0x5a)]
  | "word" => some [(0x30, 0x39), (0x41, 0x5a), (0x5f, 0x5f), (0x61, 0x7a)]
  | "xdigit" => some [(0x30, 0x39), (0x41, 0x46), (0x61, 0x66)]
  | _ => none

/-- A set of ASCII characters with both cases of every letter in it. -/
def asciiAnyCase (s : Unicode.Ranges) : Unicode.Ranges :=
  let letters (first last : Nat) := Unicode.Ranges.inter s [(first, last)]
  .unions
    [s, (letters 0x41 0x5a).map fun (a, b) => (a + 0x20, b + 0x20),
      (letters 0x61 0x7a).map fun (a, b) => (a - 0x20, b - 0x20)]

end CharSet

end Peg
