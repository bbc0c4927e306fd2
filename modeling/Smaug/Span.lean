import Smaug.Text.Bytes

/-! # Spans of source text

A span is a half-open range of byte offsets into a source text.  Nothing forces its ends into
order or onto character boundaries: a span may come from outside, and the operations that need a
proper one answer `none` for the others.
-/

namespace Smaug

/-- The bytes from `start` up to, and not including, `stop`. -/
structure Span where
  start : Nat
  stop : Nat
deriving DecidableEq, Inhabited

namespace Span

/-- The largest offset a span can hold, and so the size of the largest readable source. -/
def maxOffset : Nat := UInt32.size - 1

/-- A span between two offsets of any size; what exceeds the width of a span's ends is cut off. -/
def wrap (start stop : Nat) : Span :=
  ⟨start % (maxOffset + 1), stop % (maxOffset + 1)⟩

def emptyAt (offset : Nat) : Span := ⟨offset, offset⟩

def merge (a b : Span) : Span := ⟨min a.start b.start, max a.stop b.stop⟩

def isEmpty (s : Span) : Bool := s.start == s.stop

/-- Whether `inner` lies within `outer`, ends included. -/
def contains (outer inner : Span) : Bool :=
  outer.start ≤ inner.start && inner.stop ≤ outer.stop

def length? (s : Span) : Option Nat :=
  if s.start ≤ s.stop then some (s.stop - s.start) else none

/-- The text covered, unless the ends are out of order, outside the source or inside a
character. -/
def text? (s : Span) (source : String) : Option String :=
  if s.start ≤ s.stop then do
    let (_, tail) ← Text.cut? s.start source.toList
    let (covered, _) ← Text.cut? (s.stop - s.start) tail
    return String.ofList covered
  else none

end Span
end Smaug
