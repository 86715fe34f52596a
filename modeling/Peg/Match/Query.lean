import Peg.Match.Basic

/-!
# Looking for descendants

`find` lists the children of a name and on demand the deeper descendants, `first` takes the
shallowest descendant of a name and among those the leftmost, and `namedMatches` lists the closest
descendants that have a name at all, looking through nameless ones.
-/

namespace Peg.Match

mutual

/-- The proper descendants of a name: the children, then those below each child in turn. -/
def findBelow (name : String) : Match → List Match
  | mk _ _ children => children.filter (·.hasName name) ++ findBelowAll name children

def findBelowAll (name : String) : List Match → List Match
  | [] => []
  | m :: ms => findBelow name m ++ findBelowAll name ms

end

def find (m : Match) (name : String) (deep : Bool) : List Match :=
  if deep then findBelow name m else m.children.filter (·.hasName name)

/-- The first match of a name in a level of the tree or else in the levels below. -/
def firstAmong (name : String) (level : List Match) : Option Match :=
  match level with
  | [] => none
  | m :: ms =>
    match (m :: ms).find? (·.hasName name) with
    | some found => some found
    | none => firstAmong name ((m :: ms).flatMap children)
termination_by sizeAll level
decreasing_by
  have := sizeAll_flatMap_children (m :: ms)
  simp only [List.length_cons] at this
  omega

def first (m : Match) (name : String) : Option Match := firstAmong name m.children

def capture (m : Match) (name : String) : Option Match := m.first name

mutual

/-- The match itself if it has a name, else the closest named ones below. -/
def namedFrom : Match → List Match
  | mk node call children =>
    if node.names.isEmpty then namedFromAll children else [mk node call children]

def namedFromAll : List Match → List Match
  | [] => []
  | m :: ms => namedFrom m ++ namedFromAll ms

end

/-- The closest proper descendants with a name. -/
def namedMatches (m : Match) : List Match := namedFromAll m.children

end Peg.Match
