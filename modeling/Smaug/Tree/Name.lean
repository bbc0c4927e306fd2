import Smaug.Span

/-! # Names and paths

A name is one identifier of the source; a path is one or more names joined by dots.
-/

namespace Smaug

/-- An identifier as it stands in the source, or a built-in type name used as one. -/
structure Name where
  text : String
  builtIn : Bool
  span : Span
deriving DecidableEq, Inhabited

structure Path where
  first : Name
  more : List Name
  span : Span
deriving DecidableEq, Inhabited

namespace Path

def single (name : Name) : Path := ⟨name, [], name.span⟩

def names (path : Path) : List Name := path.first :: path.more

def last (path : Path) : Name := path.more.getLast?.getD path.first

def isSingle (path : Path) : Bool := path.more.isEmpty

/-- The path as it is written without blanks. -/
def text (path : Path) : String := ".".intercalate (path.names.map Name.text)

end Path
end Smaug
