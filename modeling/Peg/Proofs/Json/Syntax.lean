import Peg.Proofs.Json.Token

/-!
# Texts of JSON

The grammar of RFC 8259, with the value that the structure of a text gives. White space belongs to the
structural characters, before and behind each of them, and stands around the whole text. Arrays have
the values of their elements in order, objects the fields of those members whose names stand for
strings. Values are relations here, since the white space between two structural characters may be
divided between them in any way.
-/

namespace Peg.Json

/-- A structural character with white space around it. -/
def IsStructural (c : Char) (u : List Char) : Prop :=
  ∃ before after, u = before ++ c :: after ∧ IsSpace before ∧ IsSpace after

section Lists

variable {α : Type} {R S : List Char → α → Prop}

/-- Items with value separators between them. -/
inductive Items (R : List Char → α → Prop) : List Char → List α → Prop
  | one {u a} : R u a → Items R u [a]
  | more {u separator rest a as} : R u a → IsStructural ',' separator → Items R rest as →
      Items R (u ++ (separator ++ rest)) (a :: as)

/-- Items between two brackets, perhaps none. -/
inductive Bracketed (opening closing : Char) (R : List Char → α → Prop) :
    List Char → List α → Prop
  | empty {u v} : IsStructural opening u → IsStructural closing v →
      Bracketed opening closing R (u ++ v) []
  | items {u items v as} : IsStructural opening u → Items R items as → IsStructural closing v →
      Bracketed opening closing R (u ++ (items ++ v)) as

end Lists

/-! ## Values -/

def numberValue (token : List Char) : Value := (number? token).getD .null

def stringValue (token : List Char) : Value :=
  ((string? token).map fun cs => Value.string (String.ofList cs)).getD .null

def memberField? (member : List Char × Value) : Option (String × Value) :=
  (string? member.1).map fun cs => (String.ofList cs, member.2)

def objectValue (members : List (List Char × Value)) : Value :=
  .ofFields (members.filterMap memberField?)

mutual

inductive IsValue : List Char → Value → Prop
  | null : IsValue "null".toList .null
  | bool (b : Bool) : IsValue (if b then "true" else "false").toList (.bool b)
  | number {u} : IsNumber u → IsValue u (numberValue u)
  | string {u} : IsString u → IsValue u (stringValue u)
  | array {u values} : Bracketed '[' ']' IsValue u values → IsValue u (.array values)
  | object {u members} : Bracketed '\x7b' '\x7d' IsMember u members → IsValue u (objectValue members)

/-- A member of an object, with the string before the name separator and the value behind it. -/
inductive IsMember : List Char → List Char × Value → Prop
  | pair {name separator u v} : IsString name → IsStructural ':' separator → IsValue u v →
      IsMember (name ++ (separator ++ u)) (name, v)

end

/-- A value with white space around it. -/
def IsText (text : List Char) (v : Value) : Prop :=
  ∃ before u after, text = before ++ (u ++ after) ∧ IsSpace before ∧ IsSpace after ∧ IsValue u v

theorem IsValue.induct {P : List Char → Value → Prop} {Q : List Char → List Char × Value → Prop}
    (null : P "null".toList .null)
    (bool : ∀ b : Bool, P (if b then "true" else "false").toList (.bool b))
    (number : ∀ {u}, IsNumber u → P u (numberValue u))
    (string : ∀ {u}, IsString u → P u (stringValue u))
    (array : ∀ {u values}, Bracketed '[' ']' P u values → P u (.array values))
    (object : ∀ {u members}, Bracketed '\x7b' '\x7d' Q u members → P u (objectValue members))
    (pair : ∀ {name separator u v}, IsString name → IsStructural ':' separator → P u v →
      Q (name ++ (separator ++ u)) (name, v))
    {u : List Char} {v : Value} (h : IsValue u v) : P u v :=
  @IsValue.rec (fun u v _ => P u v) (fun u member _ => Q u member)
    (fun u values _ => Bracketed '[' ']' P u values)
    (fun u members _ => Bracketed '\x7b' '\x7d' Q u members)
    (fun u values _ => Items P u values) (fun u members _ => Items Q u members)
    null bool number string (fun _ ih => array ih) (fun _ ih => object ih)
    (fun hname hseparator _ ih => pair hname hseparator ih)
    .empty (fun hopen _ hclose ih => .items hopen ih hclose)
    .empty (fun hopen _ hclose ih => .items hopen ih hclose)
    (fun _ ih => .one ih) (fun _ hseparator _ ih ihrest => .more ih hseparator ihrest)
    (fun _ ih => .one ih) (fun _ hseparator _ ih ihrest => .more ih hseparator ihrest)
    u v h

end Peg.Json
