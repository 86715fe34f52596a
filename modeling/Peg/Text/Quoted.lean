import Peg.Unicode.Printable

/-!
# Quoted text

Texts are quoted with `"` and single characters with `'`. The quote in use, the backslash and the
characters with a short name (NUL, tab, carriage return, line feed) are written with a backslash,
characters that cannot be shown by their code point in hexadecimal, and all others as they are.
-/

namespace Peg.Text

/-- The lower case hexadecimal digits of a number, without leading zeros. -/
def hex (n : Nat) : String := String.ofList (Nat.toDigits 16 n)

def escape (quote c : Char) : String :=
  if c = '\x00' then "\\0"
  else if c = '\t' then "\\t"
  else if c = '\r' then "\\r"
  else if c = '\n' then "\\n"
  else if c = '\\' || c = quote then String.ofList ['\\', c]
  else if Unicode.isShown c then String.singleton c
  else "\\u\x7b" ++ hex c.toNat ++ "\x7d"

def quote (s : String) : String :=
  s.foldl (fun out c => out ++ escape '"' c) "\"" ++ "\""

def quoteChar (c : Char) : String := "'" ++ escape '\'' c ++ "'"

end Peg.Text
