import Smaug.Parse.Expression

/-! # Rules for patterns

A pattern is told by its first token.  Types inside patterns stop before comparisons, so that
`x: int` is no expression.
-/

namespace Smaug.Parse

variable (run : Rule → Parse NodeId)

def pattern (allowDefault : Bool) : Parse NodeId :=
  nested do
    match (← given Setup.table).pattern (← look State.kind) with
    | some form => run (.pattern form allowDefault)
    | none => refuse (← misplaced .pattern)

def restPattern : Parse NodeId := do
  let start := (← expect .ellipsis).span.start
  let binder ← run (.pattern .identifier false)
  pushFrom start (.restPattern binder)

/-- An enum pattern if a parenthesis follows the name, and an identifier pattern otherwise. -/
def namedPattern (allowDefault : Bool) : Parse NodeId := do
  if (← look (·.peek 1)) = .openParen then run (.pattern .enum allowDefault)
  else run (.pattern .identifier allowDefault)

def annotatedType : Parse (Option NodeId) := optionally (eat .colon) (typeExpression run)

/-- A name, with a type if so wished, and with a default value if so wished and allowed. -/
def identifierPattern (allowDefault : Bool) : Parse NodeId := do
  let name ← name
  let type ← annotatedType run
  let default ←
    optionally (if allowDefault then eat .assignment else return false) (value run)
  pushFrom name.span.start (.identifierPattern name type default)

def tuplePattern : Parse NodeId := do
  let opening := (← expect .openParen).span
  let elements ← inside '(' "tuple pattern" opening
    (delimited .closeParen (run (.pattern .any true)))
  pushFrom opening.start (.tuplePattern elements)

/-- A name and patterns in parentheses: it declares a variant or a struct, or matches one. -/
def enumPattern : Parse NodeId := do
  let name ← name
  let arguments ← run (.pattern .tuple true)
  pushFrom name.span.start (.enumPattern name arguments)

def literalPattern : Parse NodeId := do
  let literal ← run (.form .primary)
  push (.literalPattern literal) (← spanOf literal)

/-- `yield` and a type, once or more, with commas between and after them if so wished. -/
def attributeList : Parse (List NodeId) := do
  if ← isAt .yieldWord then
    collect do
      if ← isAt .yieldWord then
        let start := (← advance).span.start
        let type ← typeExpression run
        let item ← pushFrom start (.yieldAttribute type)
        return some (item, ← eat .comma)
      else return none
  else refuse (← errorAt .emptyAttributeList (← look (·.current.span)) [.yieldAttribute])

/-- The attributes of a function, if it has some.  A comma that no attribute comes before is left to
the attribute list to refuse. -/
def signatureAttributes : Parse (List NodeId) := do
  if ← look fun s => s.kind == .yieldWord || s.kind == .comma then attributeList run else return []

def signature : Parse NodeId := do
  let start ← look (·.current.span.start)
  let arguments ← run (.pattern .tuple true)
  let returnType ← annotatedType run
  let attributes ← signatureAttributes run
  pushFrom start (.functionSignature arguments returnType attributes)

end Smaug.Parse
