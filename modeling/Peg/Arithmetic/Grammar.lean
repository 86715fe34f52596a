import Peg.Arithmetic.Number
import Peg.Grammar.Build
import Peg.Member
import Peg.Parse.Basic

/-!
# Arithmetic expressions

The grammar of expressions over numbers with the usual precedence:

* an expression is an additive expression with blanks around it;
* an additive expression is a chain of multiplicative ones joined by `+` and `-`;
* a multiplicative expression is a chain of unary ones joined by `*`, `/` and `%`;
* a unary expression is a minus sign before a unary expression, or a primary expression;
* a primary expression is a number or an additive expression in parentheses.

Every rule evaluates to a number, chains from left to right. Results that are not finite are `null`.
-/

namespace Peg.Arithmetic

def space : Expr := .pattern "[ \\t\\r\\n]*"

def number : Member := fun m => (literal m.text.toList).toValue

/-- Zero minus the operand. -/
def negate : Member := fun m =>
  ((Number.int 0).apply .sub (.ofValue (Member.capture "unary" m))).toValue

/-- Applies one operation of a chain, if it has an operator and an operand. -/
def continueWith (result : Number) (operation : Match) : Number :=
  match operation.capture "op", operation.capture "operand" with
  | some op, some operand =>
    match Operator.ofText? op.text with
    | some op => result.apply op (.ofValue operand.value)
    | none => result
  | _, _ => result

/-- A chain, made of a head and the operations that follow. -/
def chain : Member := fun m =>
  match m.children with
  | [head, tail] => (tail.children.foldl continueWith (.ofValue head.value)).toValue
  | _ => .null

/-- Operands of one rule joined by the operators of another. -/
def chainOf (operand operator : String) : Expr :=
  (Expr.seq
    [.label (.ref operand) "head",
      .zeroOrMore (.seq
        [space, .label (.ref operator) "op", space, .label (.ref operand) "operand"])]).value chain

def draft : Draft where
  name := "Arithmetic"
  definitions :=
    [("expression",
        (Expr.seq [space, .ref "additive", space]).value (Member.capture "additive")),
      ("additive", chainOf "multitive" "additive_op"),
      ("multitive", chainOf "unary" "multitive_op"),
      ("unary",
        .choice
          [(Expr.seq [.literal "-", space, .ref "unary"]).value negate, .ref "primary"]),
      ("primary",
        .choice
          [.ref "number",
            (Expr.seq [.literal "(", space, .ref "additive", space, .literal ")"]).value
              (Member.capture "additive")]),
      ("number",
        (Expr.pattern "[0-9]+(?:\\.[0-9]+)?(?:[eE][+-]?[0-9]+)?").value number),
      ("additive_op", .choice [.literal "+", .literal "-"]),
      ("multitive_op", .choice [.literal "*", .literal "/", .literal "%"])]

def library : Library := ((Library.add {} draft).toOption).getD {}

def evaluateLogged (text : String) : Parsed Value :=
  (library.parseLogged 0 text.toList {}).map Match.value

def evaluate (text : String) : Except ParseError Value := (evaluateLogged text).result

end Peg.Arithmetic
