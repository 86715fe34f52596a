import Peg.Unicode.Property

/-!
# Letters, digits and blanks

The classes of word characters, decimal digits and white space, and the letters and numbers that
names are made of. Names know the characters of Unicode 17, the classes those of Unicode 16.
-/

namespace Peg.Unicode

/-- Alphabetic characters, marks, decimal digits, connecting punctuation and joiners. -/
def word : Ranges :=
  .unions [Property.alphabetic, Category.mark, Category.nd, Category.pc, Property.joinControl]

def space : Ranges :=
  [(0x9, 0xd), (0x20, 0x20), (0x85, 0x85), (0xa0, 0xa0), (0x1680, 0x1680), (0x2000, 0x200a),
    (0x2028, 0x2029), (0x202f, 0x202f), (0x205f, 0x205f), (0x3000, 0x3000)]

def isWord (c : Char) : Bool :=
  if c.toNat < 128 then c.isAlphanum || c == '_' else word.contains c.toNat

def isSpace (c : Char) : Bool := space.contains c.toNat

/-! ## Letters and numbers in names -/

/-- Alphabetic characters that are new in Unicode 17. -/
def newLetters : Ranges := .read
  ["88f c5c cdc a7ce-a7cf a7d2 a7d4 a7f1 10940-10959 10ec5-10ec7 10efa-10efb 11b60-11b67",
   "11db0-11ddb 16ea0-16eb8 16ebb-16ed3 16ff2-16ff6 187f8-187ff 18d09-18d1e 18d80-18df2",
   "1e6c0-1e6de 1e6e0-1e6f5 1e6fe-1e6ff 2b73a-2b73f 2cea2-2cead 323b0-33479"]

/-- Numbers that are new in Unicode 17. -/
def newNumbers : Ranges := .read
  ["11de0-11de9 16ff4-16ff6"]

def letters : Ranges := .union Property.alphabetic newLetters

def numbers : Ranges := .union Category.number newNumbers

def isLetter (c : Char) : Bool :=
  if c.toNat < 128 then c.isAlpha else letters.contains c.toNat

def isLetterOrNumber (c : Char) : Bool :=
  if c.toNat < 128 then c.isAlphanum else letters.contains c.toNat || numbers.contains c.toNat

end Peg.Unicode
