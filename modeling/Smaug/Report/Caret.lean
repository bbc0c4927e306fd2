import Smaug.Error
import Smaug.Text.Bytes
import Smaug.Text.Character

/-! # Caret reports

An error shown under the line it starts in, with a caret below its first character.  The line is
shown without its indentation.  A caret too far to the right for the width of a report cannot be
drawn, and then there is no report.
-/

namespace Smaug.Report

def indentation (cs : List Char) : Nat := (cs.takeWhile fun c => c == ' ' || c == '\t').length

def trimEnd (cs : List Char) : List Char := (cs.reverse.dropWhile Text.isBlank).reverse

/-- A text after as many of the character `fill` as bring it to a width. -/
def padLeft (width : Nat) (fill : Char) (s : String) : String :=
  String.ofList (List.replicate (width - s.length) fill) ++ s

/-- The widest that a text can be made. -/
def maxWidth : Nat := UInt16.size - 1

/-- The same, unless the width is more than a text can have. -/
def padLeft? (width : Nat) (fill : Char) (s : String) : Option String :=
  if width ≤ maxWidth then some (padLeft width fill s) else none

def heading (error : Error) : String :=
  match error.tip? with
  | none => "Error: " ++ error.name
  | some tip => "Error: " ++ error.name ++ " (" ++ tip ++ ")"

/-- The width of the line that leads to the caret, the caret included. -/
def arrowWidth (place : Text.Place) : Nat := place.column - indentation place.text + 1

/-- An error of a source, shown with a caret under its start, unless the caret is out of reach. -/
def caret? (error : Error) (source file : String) : Option String :=
  let place := Text.placeOf source error.span.start
  let line := toString place.line
  let bar := padLeft (line.length + 2) ' ' "|"
  let shown := String.ofList (trimEnd (place.text.drop (indentation place.text)))
  (padLeft? (arrowWidth place) '-' "^").map fun arrow =>
    heading error ++ "\n-> " ++ file ++ "\n" ++ bar ++ "\n" ++ line ++ " | " ++ shown ++ "\n"
      ++ bar ++ " " ++ arrow ++ "\n"

end Smaug.Report
