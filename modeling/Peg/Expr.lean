import Peg.Extension

/-!
# Rule expressions

The expressions that grammars are written in, with the usual operators of parsing expression
grammars. `Expr.extend` merges the members of repeated extensions, so that one written on the outside
wins.
-/

namespace Peg

inductive Expr where
  | text (literal : String) (ignoreCase : Bool)
  | pattern (source : String)
  | range (first last : Char)
  | any
  | endOfInput
  | seq (parts : List Expr)
  | choice (options : List Expr)
  | rep (body : Expr) (least : Nat) (most : Option Nat)
  | ahead (body : Expr)
  | notAhead (body : Expr)
  | upTo (stop : Expr)
  | ref (name : String)
  | inherited (name : Option String)
  | label (body : Expr) (name : String)
  | extended (body : Expr) (extension : Extension)

namespace Expr

/-- A text to be matched exactly. -/
def literal (s : String) : Expr := text s false

/-- A text whose characters may differ in case. -/
def anyCase (s : String) : Expr := text s true

def zeroOrMore (e : Expr) : Expr := rep e 0 none

def oneOrMore (e : Expr) : Expr := rep e 1 none

def opt (e : Expr) : Expr := rep e 0 (some 1)

def extend (e : Expr) (extension : Extension) : Expr :=
  match e with
  | extended body inner => extended body (inner.merge extension)
  | e => extended e extension

def value (e : Expr) (member : Member) : Expr := e.extend (Extension.insert {} "value" member)

open Text.Outline in
mutual

/-- The expression on one line. -/
def outline : Expr → String
  | text literal ignoreCase =>
    record "Str" [("literal", Text.quote literal), ("case_insensitive", bool ignoreCase)]
  | pattern source => tuple "Pattern" [Text.quote source]
  | range first last => tuple "Range" [Text.quoteChar first, Text.quoteChar last]
  | any => "Any"
  | endOfInput => "EndOfInput"
  | seq parts => tuple "Seq" [list (outlines parts)]
  | choice options => tuple "Choice" [list (outlines options)]
  | rep body least most =>
    record "Repeat" [("expr", body.outline), ("min", nat least), ("max", option (most.map nat))]
  | ahead body => tuple "And" [body.outline]
  | notAhead body => tuple "Not" [body.outline]
  | upTo stop => tuple "But" [stop.outline]
  | ref name => tuple "Alias" [Text.quote name]
  | inherited name => tuple "Super" [option (name.map Text.quote)]
  | label body name => tuple "Label" [body.outline, Text.quote name]
  | extended body extension => tuple "Extend" [body.outline, extension.outline]

def outlines : List Expr → List String
  | [] => []
  | e :: es => e.outline :: outlines es

end

end Expr

end Peg
