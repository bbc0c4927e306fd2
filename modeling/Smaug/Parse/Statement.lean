import Smaug.Parse.Pattern

/-! # Rules for statements

A statement is told by its first token.  At the top level, in blocks and as an operand it is read
by the same rules.
-/

namespace Smaug.Parse

variable (run : Rule → Parse NodeId)

def statement : Parse NodeId := do
  match (← given Setup.table).statement (← look State.kind) with
  | some form => run (.form form)
  | none => refuse (← misplaced .statement)

def statementOrBlock : Parse NodeId := do
  if ← isAt .openCurly then run (.form .block) else run (.form .statement)

def elseBranch : Parse (Option NodeId) := optionally (eatWord "else") (value run)

/-- A pattern, `=` and a value: what `let`, `if let` and `each` have in common. -/
def letVariable (start : Nat) : Parse NodeId := do
  let pattern ← run (.pattern .any false)
  let _ ← expect .assignment
  let value ← value run
  pushFrom start (.letVariable pattern value)

def importStatement : Parse NodeId := do
  let start := (← advance).span.start
  let path ← path
  pushFrom start (.importStatement path)

/-- `do` and an expression, or `do case` and the new subject of the running case. -/
def doStatement : Parse NodeId := do
  let start := (← advance).span.start
  if ← eat .caseWord then
    let scrutinee ← value run
    pushFrom start (.retryCase scrutinee)
  else
    let value ← value run
    pushFrom start (.doStatement value)

def returnStatement : Parse NodeId := do
  let start := (← advance).span.start
  let value ← value run
  pushFrom start (.returnStatement value)

/-- Whether the operand of `yield` was an attribute: a statement list follows, or a comma before
another attribute or the list. -/
def continuesAsAttributes (table : Table) (s : State) : Bool :=
  match s.kind with
  | .openCurly => true
  | .colon =>
    let next := s.peek 1
    next == .closeCurly || next == .eof || (table.statement next).isSome
  | .comma => [.yieldWord, .openCurly, .colon].contains (s.peek 1)
  | _ => false

def statementList : Parse NodeId := do
  let start ← look (·.current.span.start)
  if ← eat .colon then
    let statements ← bracedItems (run (.form .statement))
    pushFrom start (.transparentList .colon statements)
  else
    let opening := (← expect .openCurly).span
    let statements ← bracedStatements run "attribute block" opening
    pushFrom start (.transparentList .braced statements)

def moreAttributes : Parse (List NodeId) := do
  if ← eat .comma then
    if ← isAt .yieldWord then attributeList run else return []
  else return []

/-- `yield` and an expression, or attributes over a statement list.  The first operand is read as
a type; where no list follows, the expression goes on from it. -/
def yieldStatement : Parse NodeId := do
  let start := (← expect .yieldWord).span.start
  let operand ← typeExpression run
  if ← look (continuesAsAttributes (← given Setup.table)) then
    let first ← pushFrom start (.yieldAttribute operand)
    let more ← moreAttributes run
    let body ← statementList run
    pushFrom start (.batchAttributes (first :: more) body)
  else
    let value ← run (.continuation operand .lowest)
    pushFrom start (.yieldStatement value)

/-- `if` with a condition in parentheses, or `if let`; either with an `else` if so wished. -/
def ifStatement : Parse NodeId := do
  let start := (← advance).span.start
  if ← isAt .letWord then
    let bindingStart := (← advance).span.start
    let binding ← letVariable run bindingStart
    let thenBranch ← statementOrBlock run
    let elseBranch ← elseBranch run
    pushFrom start (.ifLet binding thenBranch elseBranch)
  else
    let condition ← run (.tuple "condition")
    let thenBranch ← value run
    let elseBranch ← elseBranch run
    pushFrom start (.ifStatement condition thenBranch elseBranch)

/-- The head `(pattern in` of an `each` over a range: the opening parenthesis and the pattern.
Where the tokens do not read so, nothing has happened. -/
def rangeHead : Parse (Option (Span × NodeId)) := do
  if ← isAt .openParen then
    let mark ← look State.mark
    let opening := (← advance).span
    match ← attempt (run (.pattern .any false)) with
    | some pattern =>
      if ← eat .inWord then return some (opening, pattern)
      else
        change (·.reset mark)
        return none
    | none =>
      change (·.reset mark)
      return none
  else return none

/-- `each (pattern in range)` or `each pattern = value`, and a body. -/
def eachStatement : Parse NodeId := do
  let start := (← advance).span.start
  match ← rangeHead run with
  | some (opening, pattern) =>
    let range ← inside '(' "range header" opening do
      let range ← value run
      let _ ← expect .closeParen
      return range
    let body ← value run
    pushFrom start (.eachRange pattern range body)
  | none =>
    let binding ← letVariable run (← look (·.current.span.start))
    let body ← statementOrBlock run
    pushFrom start (.each binding body)

/-- A value after `=`, or a block; `note` and `expected` tell what to say where there is neither. -/
def body (note : String) (expected : List Expected) : Parse Body := do
  match ← look State.kind with
  | .assignment =>
    let _ ← advance
    return .value (← value run)
  | .openCurly => return .block (← run (.form .block))
  | _ => refuse (← unexpected expected note)

def casePattern : Parse CasePattern := do
  let span ← look (·.current.span)
  if ← eatWord "default" then return .default span
  else return .pattern (← run (.pattern .any false))

def matchCase : Parse NodeId := do
  let start := (← expect .caseWord).span.start
  let pattern ← casePattern run
  let body ← body run "match case needs a value or a block"
    [.token .assignment, .token .openCurly]
  pushFrom start (.matchCase pattern body)

def matchStatement : Parse NodeId := do
  let start := (← advance).span.start
  let scrutinee ← run (.tuple "tuple")
  let opening := (← expect .openCurly).span
  let cases ← inside '\x7b' "match body" opening do
    let cases ← collect do
      if ← isAt .caseWord then return some (← matchCase run, true) else return none
    let _ ← expectOr .closeCurly (unexpected [.token .caseWord, .token .closeCurly])
    return cases
  pushFrom start (.matchStatement scrutinee cases)

def letFunction (start : Nat) : Parse NodeId := do
  let name ← name
  let signature ← run (.form .signature)
  let body ← body run "expected function body" [.token .openCurly, .token .assignment]
  pushFrom start (.letFunction name signature body)

def letStruct (start : Nat) : Parse NodeId := do
  let _ ← expect .structWord
  let pattern ← run (.pattern .enum false)
  pushFrom start (.letStruct pattern)

def externalModule : Parse (Option String) := do
  if ← isAt .openParen then
    let opening := (← advance).span
    inside '(' "external module" opening do
      let module := (← expect .string).value
      let _ ← expect .closeParen
      return some module
  else return none

def external : Parse (Option External) := do
  if ← isAt .externalWord then
    let start := (← advance).span.start
    let module ← externalModule
    return some ⟨module, ← look (·.spanFrom start)⟩
  else return none

def letEnum (start : Nat) : Parse NodeId := do
  let _ ← expect .enumWord
  let name ← name
  let external ← external
  let opening ← expectOr .openCurly
    (unexpected [.token .openCurly] (some "enum declaration needs a body"))
  let variants ← inside '\x7b' "enum body" opening.span do
    let variants ← bracedItems do
      let variant ← run (.pattern .enum false)
      let _ ← eat .comma
      return variant
    let _ ← expect .closeCurly
    return variants
  pushFrom start (.letEnum name external variants)

/-- `let` and what it declares: a struct, an enumeration, a function if a parenthesis follows the
name, or else the names of a pattern. -/
def letStatement : Parse NodeId := do
  let start := (← advance).span.start
  match ← look State.kind with
  | .structWord => letStruct run start
  | .enumWord => letEnum run start
  | .identifier | .builtIn =>
    if (← look (·.peek 1)) = .openParen then letFunction run start else letVariable run start
  | _ => letVariable run start

end Smaug.Parse
