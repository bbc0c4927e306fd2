import Smaug.Parse.Rules
import Smaug.Token.Reader

/-! # Sessions

A session is a parse in the hands of a caller, who moves it by commands: single steps, marks to go
back to, changes of the dispatch tables, and whole rules.  Whatever the commands, the session
stays within its tokens.
-/

namespace Smaug.Parse

/-- What a caller can ask of a parse. -/
inductive Command where
  | current
  | currentKind
  | peek (count : Nat)
  | advance
  | expect (kind : Token.Kind)
  | expectOr (kind : Token.Kind) (error : Error)
  | eat (kind : Token.Kind)
  | unexpected (expected : List Expected) (note : Option String)
  | errorAt (cause : Cause) (span : Span)
  | hasTokens
  | start
  | spanFrom (start : Nat)
  | push (value : Nat) (span : Span)
  | node (id : NodeId)
  | spanOf (id : NodeId)
  | mark (label : String)
  | reset (label : String)
  | enter
  | leave
  /-- What the tables hold for a kind of token. -/
  | lookUp (kind : Token.Kind)
  | putStatement (kind : Token.Kind) (form : Form)
  | putOperand (kind : Token.Kind) (form : Form)
  | putSuffix (kind : Token.Kind) (power : Power) (suffix : Suffix)
  | putPattern (kind : Token.Kind) (form : PatternForm)
  | run (rule : Rule)
  | name
  | path
  | attributeList
  | delimited (close : Token.Kind) (element : Form)

inductive Answer where
  | nothing
  | flag (value : Bool)
  | number (value : Nat)
  | kind (kind : Token.Kind)
  | token (token : Token)
  | span (span : Span)
  | error (error : Error)
  | node (node : Node)
  | id (id : NodeId)
  | ids (ids : List NodeId)
  | name (name : Name)
  | path (path : Path)
  | entries (statement operand : Option Form) (suffix : Option (Power × Suffix))
      (pattern : Option PatternForm)

inductive Reply where
  | answered (answer : Answer)
  | refused (error : Error)
  /-- There is nothing to answer: no such node or mark, or a place too far on to be counted. -/
  | failed

/-- A parse in the hands of a caller. -/
structure Session where
  setup : Setup
  state : State
  /-- The number of tokens, the end of the input included. -/
  total : Nat
  marks : List (String × Mark) := []

namespace Session

def start (tokens : List Token) (setup : Setup) : Session :=
  let state := State.start tokens
  { setup, state, total := state.remaining }

def position (session : Session) : Nat := session.total - session.state.remaining

def step (session : Session) (answer : α → Answer) (step : Parse α) : Reply × Session :=
  let { setup, state, total, marks } := session
  match step setup state with
  | .done value state => (.answered (answer value), { setup, state, total, marks })
  | .stopped (.error error) state => (.refused error, { setup, state, total, marks })
  | .stopped _ state => (.failed, { setup, state, total, marks })

def changeTable (session : Session) (f : Table → Table) : Reply × Session :=
  (.answered .nothing,
    { session with setup := { session.setup with table := f session.setup.table } })

def perform (session : Session) : Command → Reply × Session
  | .current => session.step .token (look State.current)
  | .currentKind => session.step .kind (look State.kind)
  | .peek count =>
    if session.position + count < Reader.offsetBound then
      session.step .kind (look (·.peek count))
    else (.failed, session)
  | .advance => session.step .token Parse.advance
  | .expect kind => session.step .token (Parse.expect kind)
  | .expectOr kind error => session.step .token (Parse.expectOr kind (pure error))
  | .eat kind => session.step .flag (Parse.eat kind)
  | .unexpected expected note => session.step .error (Parse.unexpected expected note)
  | .errorAt cause span => session.step .error (Parse.errorAt cause span [])
  | .hasTokens => session.step .flag (look State.hasTokens)
  | .start => session.step .number (look (·.current.span.start))
  | .spanFrom start => session.step .span (look (·.spanFrom start))
  | .push value span => session.step .id (Parse.push (.integer value) span)
  | .node id => session.step .node (Parse.node id)
  | .spanOf id => session.step .span (Parse.spanOf id)
  | .mark label =>
    (.answered .nothing, { session with marks := (label, session.state.mark) :: session.marks })
  | .reset label =>
    match session.marks.lookup label with
    | some mark => session.step (fun _ => .nothing) (change (·.reset mark))
    | none => (.failed, session)
  | .enter => session.step (fun _ => .nothing) Parse.enter
  | .leave => session.step (fun _ => .nothing) (change State.leave)
  | .lookUp kind =>
    let table := session.setup.table
    (.answered (.entries (table.statement kind) (table.operand kind) (table.suffix kind)
      (table.pattern kind)), session)
  | .putStatement kind form => session.changeTable (·.putStatement kind form)
  | .putOperand kind form => session.changeTable (·.putOperand kind form)
  | .putSuffix kind power suffix => session.changeTable (·.putSuffix kind power suffix)
  | .putPattern kind form => session.changeTable (·.putPattern kind form)
  | .run rule => session.step .id rule.parse
  | .name => session.step .name Parse.name
  | .path => session.step .path Parse.path
  | .attributeList => session.step .ids (Parse.attributeList Rule.parse)
  | .delimited close element =>
    session.step .ids (Parse.delimited close (Rule.parse (.form element)))

end Session
end Smaug.Parse
