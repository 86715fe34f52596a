import Peg.Unicode.Age
import Peg.Unicode.Boundary

/-!
# Classes of characters by name

A class is named by a property, a general category or a script, looked up in this order, or by one of
the properties with more than two values and its value. Case, blanks, underscores and hyphens in a
name are ignored, and so are a leading `is` and everything outside ASCII.
-/

namespace Peg.Unicode.Class

/-- What counts of a name. Without its first two letters `isc` would be the name of a category, so it
keeps them. -/
def loose (name : List Char) : String :=
  let lowered := name.map Char.toLower
  let (shortened, tail) := match lowered with
    | 'i' :: 's' :: tail => (true, tail)
    | _ => (false, lowered)
  let kept := tail.filter fun c => c.toNat < 128 && c ≠ ' ' && c ≠ '_' && c ≠ '-'
  if shortened && kept = ['c'] then "isc" else String.ofList kept

def named? (name : List Char) : Option Ranges :=
  let name := loose name
  ((Property.named? name).or (Category.named? name)).or (Script.named? name)

def valued? (property value : List Char) : Option Ranges :=
  let value := loose value
  match loose property with
  | "gc" | "generalcategory" => Category.named? value
  | "sc" | "script" => Script.named? value
  | "scx" | "scriptextensions" => Script.extensionsNamed? value
  | "age" => Age.named? value
  | "gcb" | "graphemeclusterbreak" => Boundary.named? Boundary.clusterValues value
  | "wb" | "wordbreak" => Boundary.named? Boundary.wordValues value
  | "sb" | "sentencebreak" => Boundary.named? Boundary.sentenceValues value
  | _ => none

end Peg.Unicode.Class
