import Smaug.Error
import Smaug.Grammar.Table

/-! # The state of a parse

A parse stands at a token, with the tokens after it and the arena of the nodes built so far.  The
token that ends the input is never passed, so there always is a current token.  A mark remembers
how far a parse has come, for going back to.
-/

namespace Smaug.Parse

structure State where
  /-- The token the parse stands at. -/
  current : Token
  /-- The tokens after it. -/
  ahead : List Token
  nodes : Array Node := #[]
  /-- How many expressions and patterns are open. -/
  depth : Nat := 0
  /-- Where the last token passed ends. -/
  lastStop : Nat := 0
deriving Inhabited

/-- What a parse is told and does not change. -/
structure Setup where
  file : String
  maxDepth : Nat
  table : Table

structure Mark where
  current : Token
  ahead : List Token
  nodeCount : Nat
  depth : Nat
  lastStop : Nat
deriving Inhabited

namespace State

/-- A list of tokens that ends its input: one that does not is ended after its last token. -/
def ended (tokens : List Token) : List Token :=
  match tokens.getLast? with
  | none => [.endAt (.emptyAt 0)]
  | some last =>
    if last.kind = .eof then tokens else tokens ++ [.endAt (.emptyAt last.span.stop)]

def start (tokens : List Token) : State :=
  match ended tokens with
  | current :: ahead => { current, ahead }
  | [] => { current := .endAt (.emptyAt 0), ahead := [] }

def remaining (s : State) : Nat := s.ahead.length + 1

def kind (s : State) : Token.Kind := s.current.kind

def hasTokens (s : State) : Bool := s.kind != .eof

/-- The kind of the token `n` places further on, or of the last token if there are not as many. -/
def peek (s : State) (n : Nat) : Token.Kind :=
  ((s.current :: s.ahead)[n]?.getD (s.ahead.getLast?.getD s.current)).kind

/-- Passes the current token, unless it ends the input. -/
def advance (s : State) : State :=
  match s.ahead with
  | next :: ahead =>
    if s.hasTokens then { s with current := next, ahead, lastStop := s.current.span.stop } else s
  | [] => s

/-- The span from an offset to the end of the last token passed, empty if that ends before. -/
def spanFrom (s : State) (start : Nat) : Span := ⟨start, max s.lastStop start⟩

def push (s : State) (node : Node) : State := { s with nodes := s.nodes.push node }

/-- Drops the nodes and the nesting since a mark, and keeps the place. -/
def discard (s : State) (mark : Mark) : State :=
  { s with nodes := s.nodes.shrink mark.nodeCount, depth := mark.depth }

def mark (s : State) : Mark := ⟨s.current, s.ahead, s.nodes.size, s.depth, s.lastStop⟩

def reset (s : State) (mark : Mark) : State :=
  { s.discard mark with current := mark.current, ahead := mark.ahead, lastStop := mark.lastStop }

def leave (s : State) : State := { s with depth := s.depth - 1 }

end State
end Smaug.Parse
