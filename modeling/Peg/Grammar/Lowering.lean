import Peg.Expr
import Peg.Rule
import Peg.Grammar.Error

/-!
# Lowering expressions to rules

Every node of an expression becomes a rule of its own, numbered after the rules of its parts; only an
extension becomes no rule but goes to the rule of what it extends. References are left with the name
of the definition that they occur in. The first fault met on the way is reported: an expression
without parts and the bounds of a repetition are looked at before the parts themselves.
-/

namespace Peg

/-- Rules in the order of their numbers, their references not yet resolved. -/
abbrev Arena := Array (Rule String)

namespace Arena

def add (arena : Arena) (rule : Rule String) : Arena × Nat := (arena.push rule, arena.size)

def addKind (arena : Arena) (kind : Kind String) : Arena × Nat := arena.add (.ofKind kind)

end Arena

mutual

/-- The arena with the rules of an expression, and the number of the rule at its top. -/
def Expr.lower (grammar rule : String) (arena : Arena) : Expr → Except GrammarError (Arena × Nat)
  | .text literal ignoreCase => .ok (arena.addKind (.text literal.toList ignoreCase))
  | .pattern source =>
    match Pattern.anchored? source with
    | none => .error (.invalidPattern grammar rule)
    | some p => .ok (arena.addKind (.terminal (.pattern p)))
  | .range first last =>
    if last < first then .error (.invalidRange grammar rule first last)
    else .ok (arena.addKind (.terminal (.range first last)))
  | .any => .ok (arena.addKind (.terminal .any))
  | .endOfInput => .ok (arena.addKind (.terminal .endOfInput))
  | .seq parts =>
    if parts.isEmpty then .error (.emptyRule grammar rule .sequence)
    else do
      let (arena, ids) ← Expr.lowerAll grammar rule arena parts
      .ok (arena.addKind (.sequence ids))
  | .choice options =>
    if options.isEmpty then .error (.emptyRule grammar rule .choice)
    else do
      let (arena, ids) ← Expr.lowerAll grammar rule arena options
      .ok (arena.addKind (.choice ids))
  | .rep body least most =>
    if let some bound := most.filter fun bound => bound = 0 || bound < least then
      .error (.invalidRepeat grammar rule least bound)
    else do
      let (arena, id) ← body.lower grammar rule arena
      .ok (arena.addKind (.rep id least most))
  | .ahead body => do
    let (arena, id) ← body.lower grammar rule arena
    .ok (arena.addKind (.ahead id))
  | .notAhead body => do
    let (arena, id) ← body.lower grammar rule arena
    .ok (arena.addKind (.notAhead id))
  | .upTo stop => do
    let (arena, id) ← stop.lower grammar rule arena
    .ok (arena.addKind (.upTo id))
  | .ref name => .ok (arena.addKind (.ref name rule))
  | .inherited name => .ok (arena.addKind (.inherited (name.getD rule) rule))
  | .label body name => do
    let (arena, id) ← body.lower grammar rule arena
    .ok (arena.add { kind := .label id, label := some name })
  | .extended body extension => do
    let (arena, id) ← body.lower grammar rule arena
    .ok (arena.modify id (·.extend extension), id)

def Expr.lowerAll (grammar rule : String) (arena : Arena) :
    List Expr → Except GrammarError (Arena × List Nat)
  | [] => .ok (arena, [])
  | e :: es => do
    let (arena, id) ← e.lower grammar rule arena
    let (arena, ids) ← Expr.lowerAll grammar rule arena es
    .ok (arena, id :: ids)

end

/-- Lowers definitions behind others, each to the rules of its expression, the top one named. -/
def lowerDefinitions (grammar : String) :
    Arena → List (String × Nat) → List (String × Expr) →
      Except GrammarError (Arena × List (String × Nat))
  | arena, defined, [] => .ok (arena, defined)
  | arena, defined, (name, e) :: rest =>
    if (defined.lookup name).isSome then .error (.duplicateRule grammar name)
    else do
      let (arena, id) ← e.lower grammar name arena
      lowerDefinitions grammar (arena.modify id fun rule => { rule with name := some name })
        (defined ++ [(name, id)]) rest

end Peg
