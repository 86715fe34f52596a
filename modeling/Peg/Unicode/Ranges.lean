/-!
# Sets of code points

A set of code points is a list of inclusive ranges in increasing order, no two of which overlap or
touch. `read` makes one from the written form of the tables, the other operations keep the order.

Surrogates are no characters: the code point after U+D7FF is U+E000.
-/

namespace Peg.Unicode

abbrev Ranges := List (Nat × Nat)

namespace Ranges

def contains : Ranges → Nat → Bool
  | [], _ => false
  | (first, last) :: rest, n => first ≤ n && (n ≤ last || contains rest n)

/-- Joins ranges in order of their first code points where they overlap or touch. -/
def joinFrom (first last : Nat) : Ranges → Ranges
  | [] => [(first, last)]
  | (a, b) :: rest =>
    if a ≤ last + 1 then joinFrom first (if last < b then b else last) rest
    else (first, last) :: joinFrom a b rest

def join : Ranges → Ranges
  | [] => []
  | (a, b) :: rest => joinFrom a b rest

/-- The ranges of both lists in order of their first code points; every step takes one of them. -/
def merge : Nat → Ranges → Ranges → Ranges
  | 0, _, _ => []
  | _, [], ys => ys
  | _, xs, [] => xs
  | fuel + 1, x :: xs, y :: ys =>
    if x.1 ≤ y.1 then x :: merge fuel xs (y :: ys) else y :: merge fuel (x :: xs) ys

def union (s t : Ranges) : Ranges := join (merge (s.length + t.length) s t)

def unions (sets : List Ranges) : Ranges := sets.foldl union []

/-- What two lists of ranges have in common; every step leaves the range behind that ends first. -/
def meet : Nat → Ranges → Ranges → Ranges
  | 0, _, _ => []
  | _, [], _ => []
  | _, _, [] => []
  | fuel + 1, (a, b) :: xs, (c, d) :: ys =>
    let first := if a < c then c else a
    let last := if b < d then b else d
    let rest := if b < d then meet fuel xs ((c, d) :: ys) else meet fuel ((a, b) :: xs) ys
    if first ≤ last then (first, last) :: rest else rest

def inter (s t : Ranges) : Ranges := meet (s.length + t.length) s t

def next (n : Nat) : Nat := if n = 0xd7ff then 0xe000 else n + 1

def previous (n : Nat) : Nat := if n = 0xe000 then 0xd7ff else n - 1

/-- What lies between ranges after one that ends with `last`. Between U+D7FF and U+E000 there is
nothing, which shows as a range whose first code point is the greater one. -/
def gapsAfter (last : Nat) : Ranges → Ranges
  | [] => if last < 0x10ffff then [(next last, 0x10ffff)] else []
  | (a, b) :: rest => (next last, previous a) :: gapsAfter b rest

def gaps : Ranges → Ranges
  | [] => [(0, 0x10ffff)]
  | (a, b) :: rest => (if 0 < a then [(0, previous a)] else []) ++ gapsAfter b rest

/-- All characters outside a set. The neighbours U+D7FF and U+E000 of an empty gap belong to it. -/
def compl (s : Ranges) : Ranges :=
  (gaps s).map fun (first, last) => if first ≤ last then (first, last) else (last, first)

def diff (s t : Ranges) : Ranges := inter s ((gaps t).filter fun (first, last) => first ≤ last)

def symmDiff (s t : Ranges) : Ranges := diff (union s t) (inter s t)

/-! ## Written sets

The tables write a set as entries in hexadecimal with blanks between them: `5f` is one code point,
`41-5a` a range and `100-12e/2` every second code point of a range.
-/

/-- The part of an entry that is being read. -/
inductive Field where
  | first
  | last
  | step

structure Entry where
  first : Nat := 0
  last : Nat := 0
  step : Nat := 0
  field : Field := .first

namespace Entry

def digit (c : Char) : Nat :=
  if c ≤ '9' then c.toNat - '0'.toNat else c.toNat - 'a'.toNat + 10

def read (entry : Entry) (c : Char) : Entry :=
  if c = '-' then { entry with last := 0, field := .last }
  else if c = '/' then { entry with field := .step }
  else
    match entry.field with
    | .first =>
      let n := entry.first * 16 + digit c
      { entry with first := n, last := n }
    | .last => { entry with last := entry.last * 16 + digit c }
    | .step => { entry with step := entry.step * 16 + digit c }

def ranges (entry : Entry) : Ranges :=
  if entry.step = 0 then [(entry.first, entry.last)]
  else
    (List.range ((entry.last - entry.first) / entry.step + 1)).reverse.map fun i =>
      (entry.first + i * entry.step, entry.first + i * entry.step)

end Entry

/-- Reads one line of entries in increasing order. -/
def readLine (line : String) : Ranges :=
  let (done, entry) := line.foldl
    (fun (state : Ranges × Entry) c =>
      if c = ' ' then (state.2.ranges ++ state.1, {}) else (state.1, state.2.read c))
    ([], {})
  (entry.ranges ++ done).reverse

def read (lines : List String) : Ranges := join (lines.flatMap readLine)

end Ranges

end Peg.Unicode
