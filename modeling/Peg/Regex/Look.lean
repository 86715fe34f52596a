import Peg.Unicode.Word

/-!
# Conditions on a point of a text

Conditions that a regular expression can set on the characters around a point. Some can be seen to
hold from the character before the point alone (`holdsAfter`), all from both characters (`holds`).
Where a text ends there is no character. Words are made of the word characters of Unicode or of
those of ASCII; lines end at a line feed, or also at a carriage return, the pair of both being one
end.
-/

namespace Peg

/-- Conditions on whether the characters around a point belong to words. -/
inductive WordLook where
  | boundary
  | noBoundary
  | start
  | stop
  | startHalf
  | stopHalf
deriving DecidableEq

inductive Look where
  | textStart
  | textEnd
  | lineStart (crlf : Bool)
  | lineEnd (crlf : Bool)
  | word (condition : WordLook) (unicode : Bool)
deriving DecidableEq

namespace WordLook

def holds : WordLook → Bool → Bool → Bool
  | boundary, before, after => before != after
  | noBoundary, before, after => before == after
  | start, before, after => !before && after
  | stop, before, after => before && !after
  | startHalf, before, _ => !before
  | stopHalf, _, after => !after

end WordLook

namespace Look

def isWord (unicode : Bool) (c : Option Char) : Bool :=
  c.any fun c => if unicode then Unicode.isWord c else c.isAlphanum || c == '_'

/-- Whether the condition holds at a point, whatever follows the character before it. -/
def holdsAfter : Look → Option Char → Bool
  | textStart, before => before.isNone
  | lineStart _, before => before.isNone || before == some '\n'
  | word .startHalf unicode, before => !isWord unicode before
  | _, _ => false

def holds : Look → Option Char → Option Char → Bool
  | textStart, before, _ => before.isNone
  | textEnd, _, after => after.isNone
  | lineStart crlf, before, after =>
    before.isNone || before == some '\n' || (crlf && before == some '\r' && after != some '\n')
  | lineEnd false, _, after => after.isNone || after == some '\n'
  | lineEnd true, before, after =>
    after.isNone || after == some '\r' || (after == some '\n' && before != some '\r')
  | word condition unicode, before, after =>
    condition.holds (isWord unicode before) (isWord unicode after)

theorem holds_of_holdsAfter {look : Look} {before : Option Char} (h : look.holdsAfter before)
    (after : Option Char) : look.holds before after := by
  cases look with
  | word condition unicode => cases condition <;> simp_all [holdsAfter, holds, WordLook.holds]
  | _ => simp_all [holdsAfter, holds]

/-- Whether seeing that the condition holds takes word characters outside ASCII. -/
def isUnicodeWord : Look → Bool
  | word _ unicode => unicode
  | _ => false

end Look

end Peg
