import Peg.Grammar.Build
import Peg.Json.Number
import Peg.Json.Text
import Peg.Member
import Peg.Parse.Basic

/-!
# JSON texts

The grammar of JSON and the values of its texts. A string or number without a value is `null`, and a
pair whose key has none is left out of its object.
-/

namespace Peg.Json

def space : Expr := .pattern "[ \\t\\r\\n]*"

def string : Member := fun m =>
  ((string? m.text.toList).map fun cs => Value.string (String.ofList cs)).getD .null

def number : Member := fun m => (number? m.text.toList).getD .null

def bool : Member := fun m => .bool (m.text == "true")

/-- The field of a pair, none if its key is no string. -/
def field? (pair : Match) : Option (String × Value) := do
  let key ← pair.capture "key"
  let value ← pair.capture "value"
  match key.value with
  | .string key => some (key, value.value)
  | _ => none

def object : Member := fun m => .ofFields (m.namedMatches.filterMap field?)

/-- Items of a rule between brackets, separated by commas. -/
def listOf (opening item closing : String) : Expr :=
  .seq
    [.literal opening, space,
      .opt (.seq
        [.ref item, .zeroOrMore (.seq [space, .literal ",", space, .ref item])]),
      space, .literal closing]

def draft : Draft where
  name := "Json"
  definitions :=
    [("json", (Expr.seq [space, .ref "value", space]).value (Member.capture "value")),
      ("value",
        .choice
          [.ref "object", .ref "array", .ref "string", .ref "number", .ref "bool",
            .ref "null"]),
      ("object", (listOf "\x7b" "pair" "\x7d").value object),
      ("pair", .seq [.label (.ref "string") "key", space, .literal ":", space, .ref "value"]),
      ("array", (listOf "[" "value" "]").value Member.namedMatches),
      ("string",
        (Expr.pattern
          "\"(?:[^\"\\\\\\x00-\\x1F]|\\\\(?:[\"\\\\/bfnrt]|u[0-9a-fA-F]\x7b4\x7d))*\"").value string),
      ("number",
        (Expr.pattern "-?(?:0|[1-9][0-9]*)(?:\\.[0-9]+)?(?:[eE][+-]?[0-9]+)?").value number),
      ("bool", (Expr.choice [.literal "true", .literal "false"]).value bool),
      ("null", (Expr.literal "null").value (Member.const .null))]

def library : Library := ((Library.add {} draft).toOption).getD {}

def parseLogged (text : String) : Parsed Value :=
  (library.parseLogged 0 text.toList {}).map Match.value

def parse (text : String) : Except ParseError Value := (parseLogged text).result

end Peg.Json
