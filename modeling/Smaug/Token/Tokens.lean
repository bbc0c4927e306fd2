import Smaug.Options
import Smaug.Token.Reader

/-! # The tokens of a source

A source text becomes a list of tokens and its trivia, or the errors that prevent it.  The limits
on bytes and tokens are applied here; a limit is the last error of the list it appears in.
-/

namespace Smaug

namespace Tokens

def tooManyBytes (size max : Nat) (file : String) : Error where
  cause := .limitExceeded .bytes max
  span := ⟨max, min size Span.maxOffset⟩
  file := some file

def tooManyTokens (token : Token) (max : Nat) (file : String) : Error where
  cause := .limitExceeded .tokens max
  span := token.span
  file := some file

/-- Sorts readings into the tokens and the errors so far, up to the end of input, a token beyond
the limit, or in strict mode the first error. -/
def collect (options : Options) (file : String) (tokens : Array Token) (errors : Array Error) :
    List Reading → Except (List Error) (List Token)
  | .token token :: readings =>
    if token.kind = .eof then finish (tokens.push token)
    else
      match options.maxTokens with
      | some max =>
        if max ≤ tokens.size then .error (errors.push (tooManyTokens token max file)).toList
        else collect options file (tokens.push token) errors readings
      | none => collect options file (tokens.push token) errors readings
  | .error error :: readings =>
    if options.isStrict then .error (errors.push error).toList
    else collect options file tokens (errors.push error) readings
  | .misplaced :: _ | [] => finish tokens
where
  /-- What the whole list comes to. -/
  finish (tokens : Array Token) : Except (List Error) (List Token) :=
    if errors.isEmpty then .ok tokens.toList else .error errors.toList

/-- The tokens and trivia of a source, or its errors: all of them, or in strict mode the first. -/
def ofSource (source file : String) (options : Options) : Except (List Error) Tokens :=
  if options.byteLimit < source.utf8ByteSize then
    .error [tooManyBytes source.utf8ByteSize options.byteLimit file]
  else
    let (readings, reader) := (Reader.ofSource source file).drain
    (collect options file #[] #[] readings).map (⟨·, reader.trivia⟩)

end Tokens
end Smaug
