import Peg.Regex.Basic

/-!
# Flags of patterns

Flags change how a pattern is read from where they are set to the end of the group around. `i`
ignores case, `m` lets `^` and `$` match at the ends of lines, `s` lets the dot match the end of a
line, `U` exchanges greedy and lazy, `u` counts characters outside ASCII, `R` takes a carriage return
for the end of a line too, and `x` ignores white space and comments in the pattern.

Without `u` nothing may be matched that reaches outside ASCII by more than a single character written
out: a dot, a complement or a property is refused.
-/

namespace Peg.Regex.Pattern

structure Flags where
  ignoreCase : Bool := false
  multiLine : Bool := false
  dotAll : Bool := false
  swapGreed : Bool := false
  unicode : Bool := true
  crlf : Bool := false
  extended : Bool := false

namespace Flags

def set? (flags : Flags) (on : Bool) : Char → Option Flags
  | 'i' => some { flags with ignoreCase := on }
  | 'm' => some { flags with multiLine := on }
  | 's' => some { flags with dotAll := on }
  | 'U' => some { flags with swapGreed := on }
  | 'u' => some { flags with unicode := on }
  | 'R' => some { flags with crlf := on }
  | 'x' => some { flags with extended := on }
  | _ => none

/-! ## Blanks -/

/-- Passes over white space and over comments, which run from `#` to the end of the line. -/
def skipBlanks (inComment : Bool) : List Char → List Char
  | [] => []
  | c :: cs =>
    if inComment then skipBlanks (c ≠ '\n') cs
    else if Unicode.isSpace c then skipBlanks false cs
    else if c = '#' then skipBlanks true cs
    else c :: cs

def skip (flags : Flags) (cs : List Char) : List Char :=
  if flags.extended then skipBlanks false cs else cs

/-- The first character that is neither white space nor the first number sign. -/
def peekPast (inComment : Bool) : List Char → Option Char
  | [] => none
  | c :: cs =>
    if Unicode.isSpace c then peekPast inComment cs
    else if !inComment && c = '#' then peekPast true cs
    else some c

/-- The character that a hyphen in a class is judged by. A comment is looked into. -/
def peek (flags : Flags) (cs : List Char) : Option Char :=
  if flags.extended then (peekPast false cs).or cs.head? else cs.head?

/-! ## Sets under flags -/

def fold (flags : Flags) (s : Unicode.Ranges) : Unicode.Ranges :=
  if !flags.ignoreCase then s
  else if flags.unicode then Unicode.anyCase s
  else CharSet.asciiAnyCase s

/-- A set that may be matched: one outside ASCII only where that counts. -/
def allowed? (flags : Flags) (s : Unicode.Ranges) : Option Unicode.Ranges :=
  if flags.unicode || s.all (fun r => r.2 < 128) then some s else none

def signed? (flags : Flags) (negated : Bool) (s : Unicode.Ranges) : Option Unicode.Ranges :=
  flags.allowed? (if negated then .compl s else s)

def charSet (flags : Flags) (s : Unicode.Ranges) : CharSet :=
  { ranges := s, ascii := !flags.unicode }

/-- A character that stands for itself, in both cases where case is ignored. -/
def literal (flags : Flags) (c : Char) : Regex :=
  if flags.ignoreCase && (flags.unicode || c.toNat < 128) then
    .ofSet (flags.charSet (flags.fold [(c.toNat, c.toNat)]))
  else .literal [c]

/-- What the dot stands for. -/
def dot? (flags : Flags) : Option Regex :=
  if !flags.unicode then none
  else
    let lineEnds : Unicode.Ranges :=
      if flags.dotAll then []
      else if flags.crlf then [(0xa, 0xa), (0xd, 0xd)]
      else [(0xa, 0xa)]
    some (.ofSet (flags.charSet (.compl lineEnds)))

def lineStart (flags : Flags) : Look :=
  if flags.multiLine then .lineStart flags.crlf else .textStart

def lineEnd (flags : Flags) : Look :=
  if flags.multiLine then .lineEnd flags.crlf else .textEnd

end Flags

end Peg.Regex.Pattern
