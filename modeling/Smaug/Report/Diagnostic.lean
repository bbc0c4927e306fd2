import Smaug.Report.Caret

/-! # Diagnostics

An error as editors take it: a message, a labelled range, and help.

How a diagnostic is drawn is up to a library, `miette`, that is no part of the program.
`Diagnostic.render` approximates its plain layout, and is exact only for labels within one line and
for text whose characters are one column wide.
-/

namespace Smaug

structure Diagnostic where
  message : String
  help : Option String
  label : String
  offset : Nat
  length : Nat

/-- The diagnostic of an error, unless the ends of its span are out of order. -/
def Error.diagnostic? (error : Error) : Option Diagnostic :=
  error.span.length?.map fun length =>
    { message := error.message
      help := error.tip?
      label := error.name
      offset := error.span.start
      length }

namespace Report

/-- The lines that the drawing shows of a text, without their newlines; after a last newline there
is no line. -/
def linesOf (source : String) : List String :=
  match (source.splitOn "\n").reverse with
  | "" :: lines => lines.reverse
  | lines => lines.reverse

/-- The line under a label, with a mark at `middle`.  The drawing is `length` columns wide, which
are as many bytes, and so it is exact for characters of one byte and one column. -/
def underline (length middle : Nat) : String :=
  if length = 0 then "▲"
  else
    String.ofList (List.replicate middle '─') ++ "┬"
      ++ String.ofList (List.replicate (length - middle - 1) '─')

end Report

namespace Diagnostic

open Report

/-- Draws a diagnostic as `miette` does, approximately: the message, the line of the label between
its neighbours, the label under what it is about, and the help.  A label over several lines and a
character wider or narrower than a column are drawn otherwise there. -/
def render (diagnostic : Diagnostic) (source file : String) : String :=
  let place := Text.placeOf source diagnostic.offset
  let column := place.column
  let shown := ((linesOf source).zipIdx 1).filter fun (_, number) =>
    place.line ≤ number + 1 && number ≤ place.line + 1
  let width := (toString ((shown.getLast?.map (·.2)).getD place.line)).length
  let margin := padLeft (width + 2) ' ' ""
  let middle := diagnostic.length / 2
  let label :=
    if column < Text.size place.text then
      margin ++ "· " ++ padLeft column ' ' "" ++ underline diagnostic.length middle ++ "\n"
        ++ margin ++ "· " ++ padLeft (column + middle) ' ' "" ++ "╰── " ++ diagnostic.label ++ "\n"
    else ""
  let lines := shown.map fun (text, number) =>
    " " ++ padLeft width ' ' (toString number) ++ " │ " ++ text ++ "\n"
      ++ if number = place.line then label else ""
  let help :=
    match diagnostic.help with
    | some help => "  help: " ++ help ++ "\n"
    | none => ""
  s!"  × {diagnostic.message}\n{margin}╭─[{file}:{place.line}:{column + 1}]\n"
    ++ String.join lines ++ margin ++ "╰────\n" ++ help

end Diagnostic
end Smaug
