import Smaug.Span
import Smaug.Token.Kind

/-! # Tokens and trivia

A source text divides into tokens, which the grammar is about, and trivia: the blanks and comments
between them, kept aside with their places.
-/

namespace Smaug

/-- A piece of source text that the grammar sees.  The value is the decoded content of a string
literal and the spelling of every other token. -/
structure Token where
  kind : Token.Kind
  value : String
  span : Span
deriving DecidableEq, Inhabited

namespace Token

def endAt (span : Span) : Token := ⟨.eof, "EOF", span⟩

/-- Whether the token is an identifier with exactly this spelling, as the words `module`, `else`
and `default` are where the grammar asks for them. -/
def isWord (token : Token) (word : String) : Bool :=
  token.kind == .identifier && token.value == word

def isName (token : Token) : Bool :=
  token.kind == .identifier || token.kind == .builtIn

def display (token : Token) : String :=
  "Token \x7b\nkind: " ++ token.kind.name ++ ",\nvalue: " ++ token.value ++ "\x7d"

/-- One line on a token: its kind, its value where the kind does not tell it, and its place. -/
def debugLine (token : Token) : String :=
  let value := if [.string, .identifier, .builtIn, .integer].contains token.kind
    then token.value else ""
  s!"{token.kind.name} ({value}) @{token.span.start}..{token.span.stop}\n"

end Token

inductive Trivia.Kind where
  | whitespace | lineComment | blockComment
deriving DecidableEq, Inhabited

structure Trivia where
  kind : Trivia.Kind
  span : Span
deriving DecidableEq, Inhabited

def Trivia.isComment (trivia : Trivia) : Bool := trivia.kind != .whitespace

/-- A source text taken apart: its tokens, the last of kind `eof`, and its trivia, both in source
order. -/
structure Tokens where
  tokens : List Token
  trivia : Array Trivia
deriving DecidableEq, Inhabited

end Smaug
