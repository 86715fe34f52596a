import Peg.Regex.CharSet
import Peg.Regex.Look

/-!
# Regular expressions

The expressions that patterns are read into. Options and repetitions are ordered: an earlier option
is preferred to a later one, a greedy repetition prefers one more round and a lazy one prefers to
stop. Groups leave no trace in a match; their numbers keep them apart from each other.

Sequences, options, sets and repetitions are built in a normal form by `ofParts`, `ofOptions`, `ofSet`
and `repeated`. It decides which way of matching comes first where a way is met more than once.
-/

namespace Peg

inductive Regex where
  | empty
  | literal (chars : List Char)
  | set (s : CharSet)
  | look (condition : Look)
  | times (least : Nat) (most : Option Nat) (greedy : Bool) (body : Regex)
  | group (number : Nat) (body : Regex)
  | seq (parts : List Regex)
  | alt (options : List Regex)

namespace Regex

def fail : Regex := .set { ranges := [], ascii := true }

/-! ## Equality -/

mutual

def same : Regex → Regex → Bool
  | empty, empty => true
  | literal a, literal b => a == b
  | set s, set t => s == t
  | look l, look m => l == m
  | times least most greedy body, times least' most' greedy' body' =>
    least == least' && most == most' && greedy == greedy' && same body body'
  | group n body, group n' body' => n == n' && same body body'
  | seq parts, seq parts' => sameAll parts parts'
  | alt options, alt options' => sameAll options options'
  | _, _ => false

def sameAll : List Regex → List Regex → Bool
  | [], [] => true
  | r :: rs, s :: ss => same r s && sameAll rs ss
  | _, _ => false

end

/-! ## Lengths

Lengths are numbers of bytes. What fails on every text has none.
-/

/-- The sum of two lengths that are known. -/
def addLengths (a b : Option Nat) : Option Nat := a.bind fun a => b.map (a + ·)

def codeLength (n : Nat) : Nat := (Char.ofNat n).utf8Size

mutual

def minLength : Regex → Option Nat
  | empty => some 0
  | literal chars => some ((chars.map Char.utf8Size).sum)
  | set s => s.ranges.head?.map fun r => codeLength r.1
  | look _ => some 0
  | times least _ _ body => (minLength body).map (· * least)
  | group _ body => minLength body
  | seq parts => minLengthOfParts parts
  | alt options => minLengthOfOptions options

def minLengthOfParts : List Regex → Option Nat
  | [] => some 0
  | r :: rs => addLengths (minLength r) (minLengthOfParts rs)

def minLengthOfOptions : List Regex → Option Nat
  | [] => none
  | [r] => minLength r
  | r :: rs => (minLength r).bind fun a => (minLengthOfOptions rs).map fun b => if a < b then a else b

end

mutual

/-- The greatest length of a match, none if there is no greatest. -/
def maxLength : Regex → Option Nat
  | empty => some 0
  | literal chars => some ((chars.map Char.utf8Size).sum)
  | set s => s.ranges.getLast?.map fun r => codeLength r.2
  | look _ => some 0
  | times _ most _ body => most.bind fun n => (maxLength body).map (· * n)
  | group _ body => maxLength body
  | seq parts => maxLengthOfParts parts
  | alt options => maxLengthOfOptions options

def maxLengthOfParts : List Regex → Option Nat
  | [] => some 0
  | r :: rs => addLengths (maxLength r) (maxLengthOfParts rs)

def maxLengthOfOptions : List Regex → Option Nat
  | [] => none
  | [r] => maxLength r
  | r :: rs => (maxLength r).bind fun a => (maxLengthOfOptions rs).map fun b => if a < b then b else a

end

/-- Whether every match is known to be empty. -/
def onlyEmpty (r : Regex) : Bool := r.maxLength == some 0

/-- Whether every match is known to read something. -/
def neverEmpty (r : Regex) : Bool := r.minLength.any (0 < ·)

/-! ## Ends of the text -/

mutual

/-- Whether every match begins with the condition to be at the start of the text. -/
def startsAtText : Regex → Bool
  | look condition => condition == .textStart
  | times least _ _ body => 0 < least && startsAtText body
  | group _ body => startsAtText body
  | seq parts => someStartsAtText parts
  | alt options => allStartAtText options
  | _ => false

/-- Whether one of the parts that match at the start of a sequence does. -/
def someStartsAtText : List Regex → Bool
  | [] => false
  | r :: rs => startsAtText r || (onlyEmpty r && someStartsAtText rs)

def allStartAtText : List Regex → Bool
  | [] => true
  | r :: rs => startsAtText r && allStartAtText rs

end

mutual

/-- Whether every match ends with the condition to be at the end of the text. -/
def endsAtText : Regex → Bool
  | look condition => condition == .textEnd
  | times least _ _ body => 0 < least && endsAtText body
  | group _ body => endsAtText body
  | seq parts => someEndsAtText parts
  | alt options => allEndAtText options
  | _ => false

/-- Whether one of the parts that match at the end of a sequence does. -/
def someEndsAtText : List Regex → Bool
  | [] => false
  | r :: rs => someEndsAtText rs || (endsAtText r && rs.all onlyEmpty)

def allEndAtText : List Regex → Bool
  | [] => true
  | r :: rs => endsAtText r && allEndAtText rs

end

/-! ## Normal forms -/

def isEmpty : Regex → Bool
  | empty => true
  | _ => false

/-- A set of one character is a literal, an empty set fails. -/
def ofSet (s : CharSet) : Regex :=
  match s.char? with
  | some c => literal [c]
  | none => if s.ranges.isEmpty then fail else set s

/-- A repetition. Rounds that read nothing are not repeated. -/
def repeated (least : Nat) (most : Option Nat) (greedy : Bool) (body : Regex) : Regex :=
  let once (n : Nat) := if n < 1 then n else 1
  let (least, most) :=
    if body.onlyEmpty then (once least, some (once (most.getD 1))) else (least, most)
  if least = 0 && most == some 0 then empty
  else if least = 1 && most == some 1 then body
  else times least most greedy body

def parts : Regex → List Regex
  | seq rs => rs
  | r => [r]

/-- Puts a part before others and joins it with a literal that follows. -/
def consPart : Regex → List Regex → List Regex
  | literal a, literal b :: rs => literal (a ++ b) :: rs
  | r, rs => r :: rs

/-- A sequence without parts that are sequences or empty and without literals side by side. -/
def ofParts (rs : List Regex) : Regex :=
  match ((rs.flatMap parts).filter (!·.isEmpty)).foldr consPart [] with
  | [] => empty
  | [r] => r
  | rs => seq rs

def options : Regex → List Regex
  | alt rs => rs
  | r => [r]

def literalChar? : Regex → Option Char
  | literal [c] => some c
  | _ => none

def charSet? : Regex → Option CharSet
  | set s => some s
  | _ => none

/-- Options as one set, if all of them are single characters or all of them are sets. -/
def optionSet? (rs : List Regex) : Option CharSet :=
  ((rs.mapM literalChar?).map fun cs => { ranges := .unions (cs.map fun c => [(c.toNat, c.toNat)]) }).or
    ((rs.mapM charSet?).map fun sets => { ranges := .unions (sets.map CharSet.ranges) })

def ofPlainOptions (rs : List Regex) : Regex :=
  match rs with
  | [] => fail
  | [r] => r
  | rs =>
    match optionSet? rs with
    | some s => ofSet s
    | none => alt rs

def commonParts : List Regex → List Regex → Nat
  | r :: rs, s :: ss => if same r s then commonParts rs ss + 1 else 0
  | _, _ => 0

def seqParts? : Regex → Option (List Regex)
  | seq rs => some rs
  | _ => none

/-- The parts that all options begin with and what is left of each option, if all of them are
sequences and there are such parts. -/
def liftParts? (rs : List Regex) : Option (List Regex × List (List Regex)) := do
  match ← rs.mapM seqParts? with
  | first :: others =>
    let n := others.foldl (fun n rs => commonParts (first.take n) rs) first.length
    if n = 0 then none else some (first.take n, (first :: others).map (·.drop n))
  | [] => none

/-- A choice among options none of which is a choice. Options that are single characters or sets
become one set. Parts that all options begin with stand once before the choice. -/
def ofOptions (rs : List Regex) : Regex :=
  match ofPlainOptions (rs.flatMap options) with
  | alt rs =>
    match liftParts? rs with
    | some (first, rests) =>
      ofParts (first ++ [ofPlainOptions ((rests.map ofParts).flatMap options)])
    | none => alt rs
  | r => r

end Regex

end Peg
