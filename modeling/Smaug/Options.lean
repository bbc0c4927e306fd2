import Smaug.Span

/-! # Options of a parse

The mode says what happens after an error; the limits bound the work done on a source.
-/

namespace Smaug

inductive Mode where
  /-- Go on at the next statement and collect every error. -/
  | recover
  /-- Stop at the first error. -/
  | strict
deriving DecidableEq, Inhabited

/-- The mode and the limits of a parse; a limit that is absent does not apply. -/
structure Options where
  mode : Mode := .recover
  /-- The largest source, in bytes. -/
  maxBytes : Option Nat := none
  /-- The largest number of tokens, trivia and the end of input not counted. -/
  maxTokens : Option Nat := none
  /-- The deepest nesting of expressions and patterns. -/
  maxDepth : Nat := 256
deriving DecidableEq, Inhabited

namespace Options

def isStrict (options : Options) : Bool := options.mode == .strict

/-- The limit on bytes in force: spans can address no more than `Span.maxOffset`. -/
def byteLimit (options : Options) : Nat :=
  min (options.maxBytes.getD Span.maxOffset) Span.maxOffset

def strict (options : Options) : Options := { options with mode := .strict }

end Options
end Smaug
