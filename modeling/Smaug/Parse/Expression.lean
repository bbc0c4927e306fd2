import Smaug.Parse.Name
import Smaug.Text.Character

/-! # Rules for expressions

An expression is an operand followed by suffixes, each taken as long as it binds more tightly than
the expression asks for.  Any statement is an operand too.  `run` stands for the rules themselves.
-/

namespace Smaug.Parse

variable (run : Rule → Parse NodeId)

@[inline] def value : Parse NodeId := run (.expression .lowest)

/-- A type: an expression that stops before comparisons, so that `:` and `in` stay outside. -/
@[inline] def typeExpression : Parse NodeId := run (.expression .compare)

def operand : Parse NodeId := do
  let kind ← look State.kind
  let table ← given Setup.table
  match table.operand kind with
  | some form => run (.form form)
  | none =>
    if (table.statement kind).isSome then run (.form .statement)
    else refuse (← misplaced .expression)

/-- An operand and the suffixes that bind more tightly than `power`. -/
def expression (power : Power) : Parse NodeId :=
  nested do
    let left ← operand run
    run (.continuation left power)

def continuation (left : NodeId) (power : Power) : Parse NodeId :=
  loop (fun left => do
    match (← given Setup.table).suffix (← look State.kind) with
    | some (next, suffix) =>
      if next.tighter power then return .again (← run (.suffix suffix left next))
      else return .finish left
    | none => return .finish left) left

def primary : Parse NodeId := do
  let token ← look State.current
  match token.kind with
  | .integer =>
    match Text.integer? token.value with
    | some value =>
      let _ ← advance
      push (.integer value) token.span
    | none => refuse (← errorAt (.numberTooLarge token.value) token.span [])
  | .string =>
    let _ ← advance
    push (.string token.value) token.span
  | .identifier | .builtIn =>
    let name ← name
    push (.identifier (.single name)) name.span
  | _ => refuse (← unexpected [.expression])

def unary : Parse NodeId := do
  let token ← advance
  let op := UnaryOp.ofKind token.kind
  let operand ← run (.expression .unary)
  push (.unary op operand) (token.span.merge (← spanOf operand))

/-- An operator and its right operand.  That is read at the power of the operator itself, so that
operators of one power group from the left. -/
def binary (left : NodeId) (power : Power) : Parse NodeId := do
  match BinaryOp.ofKind? (← look State.kind) with
  | some op =>
    let _ ← advance
    let right ← run (.expression power)
    let leftSpan ← spanOf left
    push (.binary op left right) (leftSpan.merge (← spanOf right))
  | none => refuse (← unexpected [])

def call (left : NodeId) : Parse NodeId := do
  let arguments ← run (.tuple "argument list")
  let leftSpan ← spanOf left
  push (.call left arguments) (leftSpan.merge (← spanOf arguments))

def index (left : NodeId) : Parse NodeId := do
  let indices ← run (.form .array)
  let leftSpan ← spanOf left
  push (.index left indices) (leftSpan.merge (← spanOf indices))

/-- The name of a member; a path is read as one access per name. -/
def member (left : NodeId) : Parse NodeId := do
  let _ ← expect .dot
  let name ← name
  push (.member left (.single name)) ((← spanOf left).merge name.span)

/-- An expression in parentheses, or a tuple: `()`, `(a,)`, `(a, b)`. -/
def grouping : Parse NodeId := do
  let opening := (← expect .openParen).span
  if ← eat .closeParen then pushFrom opening.start (.tuple [])
  else
    let first ← inside '(' "parenthesized expression" opening (value run)
    if ← eat .closeParen then pushFrom opening.start (.paren first)
    else
      let _ ← inside '(' "parenthesized expression" opening
        (expectOr .comma (unexpected [.token .comma, .token .closeParen]))
      let more ← inside '(' "tuple" opening (delimited .closeParen (value run))
      pushFrom opening.start (.tuple (first :: more))

/-- A tuple where one is required, so that `(a)` is a tuple too. -/
def tuple (construct : String) : Parse NodeId := do
  let opening := (← expect .openParen).span
  let elements ← inside '(' construct opening (delimited .closeParen (value run))
  pushFrom opening.start (.tuple elements)

def array : Parse NodeId := do
  let opening := (← expect .openBracket).span
  let elements ← inside '[' "array" opening (delimited .closeBracket (value run))
  pushFrom opening.start (.array elements)

/-- Statements between braces that open with a token at `opening`, in a construct that messages
name. -/
def bracedStatements (construct : String) (opening : Span) : Parse (List NodeId) :=
  inside '\x7b' construct opening do
    let statements ← bracedItems (run (.form .statement))
    let _ ← expect .closeCurly
    return statements

def block : Parse NodeId := do
  let opening := (← expect .openCurly).span
  let statements ← bracedStatements run "block" opening
  pushFrom opening.start (.block statements)

end Smaug.Parse
