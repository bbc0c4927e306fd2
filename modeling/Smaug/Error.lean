import Smaug.Text.Quoted
import Smaug.Token.Basic

/-! # Errors

An error has a cause, a place, and the things that would have been accepted there.  Everything a
message says is computed from these.
-/

namespace Smaug

inductive Limit where
  | bytes | tokens | depth
deriving DecidableEq, Inhabited

def Limit.describe : Limit → String
  | bytes => "byte"
  | tokens => "token"
  | depth => "nesting depth"

/-- Something that would have been accepted at the place of an error. -/
inductive Expected where
  | token (kind : Token.Kind)
  | word (text : String)
  | expression
  | statement
  | pattern
  | identifier
  | yieldAttribute
deriving DecidableEq, Inhabited

def Expected.describe : Expected → String
  | token kind => "`" ++ kind.describe ++ "`"
  | word text => "`" ++ text ++ "`"
  | expression => "expression"
  | statement => "statement"
  | pattern => "pattern"
  | identifier => "identifier"
  | yieldAttribute => "yield attribute"

/-- Why a source is refused. -/
inductive Cause where
  | unterminatedString
  | unterminatedComment
  | invalidEscape (escape : Char)
  | strayCharacter (found : Char)
  /-- A token that no rule takes, with a note on what was being read if there is one. -/
  | unexpectedToken (token : String) (note : Option String)
  | unexpectedEnd
  /-- The input ended inside a construct whose opening delimiter is never closed. -/
  | unclosedDelimiter (delimiter : Char) (construct : String)
  | numberTooLarge (token : String)
  | emptyAttributeList
  | reservedWord (word : String)
  | limitExceeded (limit : Limit) (max : Nat)
deriving DecidableEq, Inhabited

inductive Cause.Class where
  /-- Malformed text. -/
  | lexical
  /-- A token that no rule takes. -/
  | syntactic
  /-- A limit reached before the end. -/
  | resource
deriving DecidableEq, Inhabited

namespace Cause

def classify : Cause → Class
  | unterminatedString | unterminatedComment | invalidEscape _ | strayCharacter _ => .lexical
  | limitExceeded .. => .resource
  | _ => .syntactic

def name : Cause → String
  | unterminatedString => "UnterminatedString"
  | unterminatedComment => "UnterminatedComment"
  | invalidEscape _ => "InvalidEscape"
  | strayCharacter _ => "UnexpectedByte"
  | unexpectedToken _ none => "UnexpectedToken"
  | unexpectedToken _ (some _) => "UnexpectedTokenDetailed"
  | unexpectedEnd => "UnexpectedEof"
  | unclosedDelimiter .. => "UnclosedDelimiter"
  | numberTooLarge _ => "NumberParseError"
  | emptyAttributeList => "EmptyAttributeList"
  | reservedWord _ => "ReservedWord"
  | limitExceeded .. => "ResourceExceeded"

def message : Cause → String
  | unterminatedString => "unterminated string literal"
  | unterminatedComment => "unterminated block comment"
  | invalidEscape escape => "invalid escape sequence `\\" ++ escape.toString ++ "`"
  | strayCharacter found => "unexpected character " ++ Text.quoteChar found
  | unexpectedToken token none => "unexpected token: " ++ Text.quote token
  | unexpectedToken token (some note) =>
    "unexpected token (" ++ note ++ "): " ++ Text.quote token
  | unexpectedEnd => "unexpected end of input"
  | unclosedDelimiter delimiter construct =>
    "unterminated " ++ construct ++ " at end of input, `" ++ delimiter.toString
      ++ "` is never closed"
  | numberTooLarge token => "error parsing number: " ++ Text.quote token
  | emptyAttributeList => "empty yield attribute list"
  | reservedWord word => "reserved word `" ++ word ++ "` is not valid here"
  | limitExceeded limit max => limit.describe ++ " limit of " ++ toString max ++ " exceeded"

end Cause

/-- A cause at a place, what was expected there, and the source it belongs to, if known. -/
structure Error where
  cause : Cause
  span : Span
  expected : List Expected := []
  file : Option String := none
deriving DecidableEq, Inhabited

namespace Error

def classify (error : Error) : Cause.Class := error.cause.classify

def name (error : Error) : String := error.cause.name

def message (error : Error) : String := error.cause.message

def isAtEnd (error : Error) : Bool := error.cause == .unexpectedEnd

def display (error : Error) : String :=
  s!"{error.message} at {error.span.start}..{error.span.stop}"

/-- An end of input inside a construct is blamed on the delimiter that opened the construct; every
other error stays as it is.  The innermost construct is the first to claim the error. -/
def inside (error : Error) (delimiter : Char) (construct : String) (opening : Span) : Error :=
  if error.isAtEnd then
    { error with
      cause := .unclosedDelimiter delimiter construct
      span := opening.merge error.span }
  else error

def expectedPhrase (error : Error) : String :=
  " or ".intercalate (error.expected.map Expected.describe)

def tip? (error : Error) : Option String :=
  match error.cause with
  | .unterminatedString => some "add a closing `\"` to the string"
  | .unterminatedComment => some "block comments end with `*/` and do not nest"
  | .invalidEscape _ => some "the only escapes are `\\\"`, `\\\\` and `\\n`"
  | .unexpectedToken token _ =>
    if error.expected.isEmpty then none
    else some ("found `" ++ token ++ "`, expected " ++ error.expectedPhrase)
  | .unexpectedEnd =>
    if error.expected.isEmpty then none else some ("expected " ++ error.expectedPhrase)
  | .unclosedDelimiter delimiter _ =>
    some ("`" ++ delimiter.toString ++ "` needs a matching closing delimiter")
  | .numberTooLarge token =>
    some ("Invalid number: `" ++ token ++ "`, is it above the integer limit?")
  | .emptyAttributeList => some "an attribute list needs at least one `yield <type>`"
  | .reservedWord word => some ("`" ++ word ++ "` is reserved and cannot be used here")
  | .strayCharacter _ | .limitExceeded .. => none

end Error
end Smaug
