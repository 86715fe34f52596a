import Peg.Regex.Pattern.Escape

/-!
# Strings of JSON

The text of a string token: escapes are replaced by what they stand for, two escapes that form a
surrogate pair by one character. A surrogate outside such a pair stands for nothing.
-/

namespace Peg.Json

def hex4? : List Char → Option (Nat × List Char)
  | a :: b :: c :: d :: rest => do
    let a ← Regex.Pattern.hexDigit? a
    let b ← Regex.Pattern.hexDigit? b
    let c ← Regex.Pattern.hexDigit? c
    let d ← Regex.Pattern.hexDigit? d
    some (((a * 16 + b) * 16 + c) * 16 + d, rest)
  | _ => none

def isHighSurrogate (n : Nat) : Bool := 0xd800 ≤ n && n ≤ 0xdbff

def isLowSurrogate (n : Nat) : Bool := 0xdc00 ≤ n && n ≤ 0xdfff

/-- The character of a code point escape, from after its `u`, and of a second one if need be. -/
def codePoint? (cs : List Char) : Option (Char × List Char) := do
  let (high, rest) ← hex4? cs
  if isHighSurrogate high then
    match rest with
    | '\\' :: 'u' :: rest => do
      let (low, rest) ← hex4? rest
      if isLowSurrogate low then
        some (Char.ofNat (0x10000 + (high - 0xd800) * 0x400 + (low - 0xdc00)), rest)
      else none
    | _ => none
  else if isLowSurrogate high then none
  else some (Char.ofNat high, rest)

def shortEscape? : Char → Option Char
  | '"' => some '"'
  | '\\' => some '\\'
  | '/' => some '/'
  | 'b' => some '\x08'
  | 'f' => some '\x0c'
  | 'n' => some '\n'
  | 'r' => some '\r'
  | 't' => some '\t'
  | _ => none

/-- Reads up to the closing quote, which has to be the end; each round reads a character. -/
def unescape? : Nat → List Char → List Char → Option (List Char)
  | 0, _, _ => none
  | fuel + 1, done, cs =>
    match cs with
    | [] => none
    | ['"'] => some done.reverse
    | '\\' :: 'u' :: rest => do
      let (c, rest) ← codePoint? rest
      unescape? fuel (c :: done) rest
    | '\\' :: c :: rest => do
      let c ← shortEscape? c
      unescape? fuel (c :: done) rest
    | c :: rest => if c = '"' || c = '\\' || c < ' ' then none else unescape? fuel (c :: done) rest

/-- The text of a string token, none if it stands for no text. -/
def string? : List Char → Option (List Char)
  | '"' :: rest => unescape? (rest.length + 1) [] rest
  | _ => none

end Peg.Json
