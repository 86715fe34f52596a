import Peg.Extension

/-!
# Common members

Members that read a value off a match: what it covers, what it is called, and the values of its
children and of the descendants with a name.
-/

namespace Peg.Member

def text : Member := fun m => .string m.text

def length : Member := fun m => .int m.length

def offset : Member := fun m => .int m.offset

def lineColumn : Member := fun m => .array [.int m.lineColumn.1, .int m.lineColumn.2]

def names : Member := fun m => .array (m.names.map .string)

def childCount : Member := fun m => .int m.children.length

def const (v : Value) : Member := fun _ => v

def children : Member := fun m => .array (m.children.map Match.value)

def namedMatches : Member := fun m => .array (m.namedMatches.map Match.value)

def find (name : String) (deep : Bool) : Member := fun m => .array ((m.find name deep).map Match.value)

/-- The value of the match captured under a name, `null` if there is none. -/
def capture (name : String) : Member := fun m => ((m.capture name).map Match.value).getD .null

/-- Another member of the match, `null` if there is none. -/
def call (member : String) : Member := fun m => (m.call member).getD .null

/-- The integer of 64 bits that a text of digits with an optional sign stands for. -/
def readInt64? (s : String) : Option Int :=
  let value? : List Char → Option Nat := fun digits =>
    if digits.isEmpty || !digits.all Char.isDigit then none
    else some (digits.foldl (fun n c => n * 10 + (c.toNat - '0'.toNat)) 0)
  let inRange (n : Int) : Option Int := if fitsInt64 n then some n else none
  match s.toList with
  | '-' :: digits => (value? digits).bind fun n => inRange (-(n : Int))
  | '+' :: digits => (value? digits).bind fun n => inRange n
  | digits => (value? digits).bind fun n => inRange n

def integer : Member := fun m => ((readInt64? m.text).map Value.int).getD .null

def wordSize : Nat := 0x10000000000000000

/-- The sum of the named matches that are integers of 64 bits, wrapped around to 64 bits. -/
def sum : Member := fun m =>
  .int (((m.namedMatches.filterMap fun (n : Match) => n.value.toInt64?).foldl (· + ·) 0).bmod wordSize)

end Peg.Member
