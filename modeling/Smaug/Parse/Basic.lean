import Smaug.Parse.State

/-! # Steps of a parse

A step reads the setup, moves the state, and yields a value or stops.  Most stops are errors in
the input; the state reached is kept with them, because recovery goes on from there.  This module
holds the steps that every rule is made of.
-/

namespace Smaug

namespace Parse

inductive Stop where
  /-- The input is refused. -/
  | error (error : Error)
  /-- A node was asked for that is not in the arena. -/
  | missingNode (id : NodeId)
  /-- The rules called each other more often than the input allows. -/
  | exhausted
deriving Inhabited

inductive Outcome (α : Type) where
  | done (value : α) (state : State)
  | stopped (why : Stop) (state : State)

end Parse

/-- A step of a parse. -/
def Parse (α : Type) : Type := Parse.Setup → Parse.State → Parse.Outcome α

namespace Parse

/-- The step that yields a value and changes nothing. -/
@[always_inline, inline]
protected def pure (value : α) : Parse α := fun _ s => .done value s

/-- One step and then the next. -/
@[always_inline, inline]
protected def bind (step : Parse α) (next : α → Parse β) : Parse β := fun setup s =>
  match step setup s with
  | .done value s => next value setup s
  | .stopped why s => .stopped why s

@[always_inline]
instance : Monad Parse where
  pure := Parse.pure
  bind := Parse.bind

@[inline] def look (f : State → α) : Parse α := fun _ s => .done (f s) s

@[inline] def change (f : State → State) : Parse Unit := fun _ s => .done () (f s)

@[inline] def given (f : Setup → α) : Parse α := fun setup s => .done (f setup) s

@[inline] def stop (why : Stop) : Parse α := fun _ s => .stopped why s

@[inline] def refuse (error : Error) : Parse α := stop (.error error)

@[inline] def mapError (f : Error → Error) (step : Parse α) : Parse α := fun setup s =>
  match step setup s with
  | .stopped (.error error) s => .stopped (.error (f error)) s
  | outcome => outcome

/-- Runs a step and yields `none` where it refuses the input. -/
@[inline] def attempt (step : Parse α) : Parse (Option α) := fun setup s =>
  match step setup s with
  | .done value s => .done (some value) s
  | .stopped (.error _) s => .done none s
  | .stopped why s => .stopped why s

/-- What one turn of a loop comes to: another turn, or the end. -/
inductive Turn (α β : Type) where
  | again (state : α)
  | finish (value : β)

/-- Takes turns until one finishes. `turns` bounds their number. -/
@[specialize] def iterate (turn : α → Parse (Turn α β)) : Nat → α → Parse β
  | 0, _ => stop .exhausted
  | turns + 1, a => do
    match ← turn a with
    | .again a => iterate turn turns a
    | .finish b => pure b

/-- Takes turns until one finishes.  Each turn but the last passes a token, which bounds their
number. -/
@[inline] def loop (turn : α → Parse (Turn α β)) (a : α) : Parse β := do
  iterate turn ((← look State.remaining) + 1) a

/-- Collects items as long as `step` yields one; the flag with an item says whether to ask for
another. -/
@[inline] def collect (step : Parse (Option (α × Bool))) : Parse (List α) :=
  loop (fun items => do
    match ← step with
    | none => return .finish items.reverse
    | some (item, true) => return .again (item :: items)
    | some (item, false) => return .finish (item :: items).reverse) []

/-! ## Tokens -/

def advance : Parse Token := fun _ s => .done s.current s.advance

@[inline] def isAt (kind : Token.Kind) : Parse Bool := look (·.kind == kind)

/-- Passes the current token if it is of a kind, and says whether it was. -/
def eat (kind : Token.Kind) : Parse Bool := do
  if ← isAt kind then
    let _ ← advance
    return true
  else return false

/-! ## Errors -/

def errorAt (cause : Cause) (span : Span) (expected : List Expected) : Parse Error :=
  given fun setup => { cause, span, expected, file := some setup.file }

def unexpected (expected : List Expected) (note : Option String := none) : Parse Error := do
  let token ← look State.current
  let cause := if token.kind = .eof then .unexpectedEnd else .unexpectedToken token.value note
  errorAt cause token.span expected

/-- The error that the current token is not what was expected, or that it is a reserved word. -/
def misplaced (expected : Expected) : Parse Error := do
  let token ← look State.current
  if token.kind.isReserved then errorAt (.reservedWord token.value) token.span [expected]
  else unexpected [expected]

/-- Passes a token of a kind, or refuses the input with an error. -/
def expectOr (kind : Token.Kind) (error : Parse Error) : Parse Token := do
  if ← isAt kind then advance else refuse (← error)

def expect (kind : Token.Kind) : Parse Token := expectOr kind (unexpected [.token kind])

/-- Runs a step inside a construct that an opening delimiter has opened. -/
@[inline] def inside (delimiter : Char) (construct : String) (opening : Span) (step : Parse α) :
    Parse α :=
  mapError (·.inside delimiter construct opening) step

/-! ## Nodes -/

/-- Adds a node to the arena and yields its place.  The place is not cut off to 32 bits, which
makes no difference in an arena of at most `2 ^ 32 - 1` nodes (`pushWrapped_eq_push`) and so none
in the parse of a source. -/
def push (shape : Shape) (span : Span) : Parse NodeId := fun _ s =>
  .done s.nodes.size (s.push ⟨shape, span⟩)

/-- Adds a node that reaches from an offset to the last token passed. -/
def pushFrom (start : Nat) (shape : Shape) : Parse NodeId := do
  push shape (← look (·.spanFrom start))

def node (id : NodeId) : Parse Node := fun _ s =>
  match s.nodes[id]? with
  | some node => .done node s
  | none => .stopped (.missingNode id) s

def spanOf (id : NodeId) : Parse Span := return (← node id).span

/-! ## Nesting -/

/-- Enters one more level of nesting, up to the limit. -/
def enter : Parse Unit := fun setup s =>
  if s.depth < setup.maxDepth then .done () { s with depth := s.depth + 1 }
  else
    .stopped (.error {
      cause := .limitExceeded .depth setup.maxDepth
      span := s.current.span
      file := some setup.file }) s

/-- Runs a step one level deeper.  An error leaves the level too. -/
@[inline] def nested (step : Parse α) : Parse α := do
  enter
  fun setup s =>
    match step setup s with
    | .done value s => .done value s.leave
    | .stopped (.error error) s => .stopped (.error error) s.leave
    | .stopped why s => .stopped why s

@[inline] def optionally (sign : Parse Bool) (step : Parse α) : Parse (Option α) := do
  if ← sign then some <$> step else return none

def eatWord (word : String) : Parse Bool := do
  if ← look (·.current.isWord word) then
    let _ ← advance
    return true
  else return false

end Parse
end Smaug
