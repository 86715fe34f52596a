import Peg.Unicode.Ranges

/-!
# Ranges of characters as ranges of bytes

The characters of a range can be written as a list of sequences of byte ranges such that the encodings
of the characters are just the byte sequences within one of them. A range is cut where the number of
bytes changes, at the surrogates, and where the bytes after the first do not run through all values.
-/

namespace Peg.Unicode

abbrev ByteRanges := List (Nat × Nat)

namespace ByteRanges

/-- The last code points that are encoded in one, two and three bytes. -/
def lengthEnds : List Nat := [0x7f, 0x7ff, 0xffff]

/-- The last code point of the first part of a range whose last `6 * k` bits do not run through all
values, if there is such a part. -/
def cutBlock? (first last block : Nat) : Option Nat :=
  if first / block = last / block then none
  else if first % block ≠ 0 then some (first / block * block + block - 1)
  else if last % block ≠ block - 1 then some (last / block * block - 1)
  else none

/-- Where a range has to be cut into two. -/
def cut? (first last : Nat) : Option Nat :=
  (lengthEnds.find? fun n => first ≤ n && n < last).or
    (if last < 0x80 then none
      else [0x40, 0x1000, 0x40000].findSome? (cutBlock? first last))

def encode (n : Nat) : List Nat :=
  if n < 0x80 then [n]
  else if n < 0x800 then [0xc0 + n / 0x40, 0x80 + n % 0x40]
  else if n < 0x10000 then [0xe0 + n / 0x1000, 0x80 + n / 0x40 % 0x40, 0x80 + n % 0x40]
  else
    [0xf0 + n / 0x40000, 0x80 + n / 0x1000 % 0x40, 0x80 + n / 0x40 % 0x40, 0x80 + n % 0x40]

/-- The sequences of a range, cut at most as often as `fuel` says on the way to one of them. -/
def ofRange : Nat → Nat → Nat → List ByteRanges
  | 0, _, _ => []
  | fuel + 1, first, last =>
    if first < 0xe000 && 0xd7ff < last then
      (if first < 0xd800 then ofRange fuel first 0xd7ff else []) ++
        (if 0xdfff < last then ofRange fuel 0xe000 last else [])
    else
      match cut? first last with
      | some n => ofRange fuel first n ++ ofRange fuel (n + 1) last
      | none => [(encode first).zip (encode last)]

def ofRanges (s : Ranges) : List ByteRanges := s.flatMap fun (first, last) => ofRange 16 first last

end ByteRanges

end Peg.Unicode
