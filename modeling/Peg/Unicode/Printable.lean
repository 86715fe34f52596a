import Peg.Unicode.Property

/-!
# Characters that cannot be shown as they are

Marks that would join the character before them, characters without a width of their own, and the
characters of the categories control, format, private use, unassigned and separator. The blank is a
separator that can be shown.
-/

namespace Peg.Unicode

/-- Characters of Unicode 17 that Unicode 16 does not assign, without the marks among them. -/
def newlyShown : Ranges := .read
  ["88f c5c cdc 20c1 2b96 a7ce-a7cf a7d2 a7d4 a7f1 fbc3-fbd2 fd90-fd91 fdc8-fdce 10940-10959",
   "10ec5-10ec7 10ed0-10ed8 11b61 11b65 11b67 11db0-11ddb 11de0-11de9 16ea0-16eb8 16ebb-16ed3",
   "16ff2-16ff6 187f8-187ff 18d09-18d1e 18d80-18df2 1ccfa-1ccfc 1ceba-1ced0 1cee0-1cef0",
   "1e6c0-1e6de 1e6e0-1e6e2 1e6e4-1e6e5 1e6e7-1e6ed 1e6f0-1e6f4 1e6fe-1e6ff 1f6d8 1f777-1f77a",
   "1f8d0-1f8d8 1fa54-1fa57 1fa8a 1fa8e 1fac8 1facd 1faea 1faef 1fbfa 2b73a-2b73f 2cea2-2cead",
   "323b0-33479"]

/-- Marks of half width that stand for letters are shown. -/
def halfWidthMarks : Ranges := [(0xff9e, 0xff9f)]

def hidden : Ranges :=
  .diff
    (.unions
      [Category.other, Category.separator, Property.defaultIgnorableCodePoint,
        .diff Property.graphemeExtend halfWidthMarks])
    newlyShown

/-- A character that stands for itself in quoted text. -/
def isShown (c : Char) : Bool :=
  if c.toNat < 127 then ' ' ≤ c else !hidden.contains c.toNat

end Peg.Unicode
