import Smaug.Token.Lexeme

/-! # Reading tokens one at a time

A reader stands at a byte offset of a source and yields the next token, or the error of the next
malformed piece of text, each time it is asked; the trivia it passes are kept.  A caller may move
it to any offset, also inside a character or beyond the end, where nothing can be read.
-/

namespace Smaug

/-- A position in a source, with what has been passed so far. -/
structure Reader where
  file : String
  /-- The text from the last character boundary on. -/
  ahead : List Char
  /-- The bytes passed since that boundary: positive inside a character or beyond the end. -/
  inside : Nat := 0
  offset : Nat := 0
  trivia : Array Trivia := #[]
  /-- Whether the end of input has been yielded. -/
  finished : Bool := false

inductive Reading where
  | token (token : Token)
  | error (error : Error)
  /-- The reader stands where no character starts. -/
  | misplaced
deriving DecidableEq

namespace Reader

def ofSource (source file : String) : Reader := { file, ahead := source.toList }

def offsetBound : Nat := UInt64.size

/-- Whether the offset `n` bytes ahead can be counted. -/
def reaches (reader : Reader) (n : Nat) : Bool := reader.offset + n < offsetBound

def atEnd (reader : Reader) : Bool := reader.ahead.isEmpty

/-- Whether the reader stands at a character or at the end exactly. -/
def isPlaced (reader : Reader) : Bool := reader.inside == 0

def remainder? (reader : Reader) : Option String :=
  if reader.isPlaced then some (String.ofList reader.ahead) else none

def spanAhead (reader : Reader) (n : Nat) : Span := .wrap reader.offset (reader.offset + n)

def advance (reader : Reader) (n : Nat) : Reader :=
  let (ahead, inside) := Text.dropBytes (reader.inside + n) reader.ahead
  { reader with ahead, inside, offset := reader.offset + n }

/-- Moves past `n` bytes and keeps them as trivia. -/
def pushTrivia (reader : Reader) (kind : Trivia.Kind) (n : Nat) : Reader :=
  { reader.advance n with trivia := reader.trivia.push ⟨kind, reader.spanAhead n⟩ }

def pass (reader : Reader) (n : Nat) : Reader :=
  { reader with
    ahead := reader.ahead.drop n
    offset := reader.offset + Text.size (reader.ahead.take n) }

theorem length_pass_lt {reader : Reader} {n : Nat} (hn : 0 < n) (h : reader.ahead ≠ []) :
    (reader.pass n).ahead.length < reader.ahead.length := by
  have := List.length_pos_iff.2 h
  simp only [pass, List.length_drop]
  omega

/-- The next token, past the trivia before it, or the error of the next malformed text; either way
the reader moves past what it has read.  At the end it yields the token that ends the input. -/
def next (reader : Reader) : Reading × Reader :=
  match _h : reader.ahead with
  | [] => (.token (.endAt (.wrap reader.offset reader.offset)), { reader with finished := true })
  | c :: cs =>
    if reader.isPlaced then
      let lexeme := Lexeme.first c cs
      let after := reader.pass lexeme.length
      let span : Span := .wrap reader.offset after.offset
      match lexeme.sort with
      | .trivia kind => next { after with trivia := reader.trivia.push ⟨kind, span⟩ }
      | .token kind value => (.token ⟨kind, value, span⟩, after)
      | .malformed cause => (.error { cause, span, file := some reader.file }, after)
      | .badEscape escape before =>
        let start := reader.offset + before
        (.error {
          cause := .invalidEscape escape
          span := .wrap start (start + 1 + escape.utf8Size)
          file := some reader.file }, after)
    else (.misplaced, reader)
termination_by reader.ahead.length
decreasing_by
  exact length_pass_lt (Lexeme.first_length_pos c cs) (by simp [_h])

/-- What the reader yields as a sequence: nothing once the end of input has been yielded. -/
def pull (reader : Reader) : Option Reading × Reader :=
  if reader.finished then (none, reader)
  else
    let (reading, reader) := reader.next
    (some reading, reader)

/-- Short of the end, reading moves forward. -/
theorem length_next_lt {reader after : Reader} {reading : Reading}
    (h : reader.next = (reading, after)) (hr : reading ≠ .misplaced) (hf : after.finished = false) :
    after.ahead.length < reader.ahead.length := by
  fun_induction next reader with
  | case1 => simp at h; simp [← h.2] at hf
  | case2 reader c cs hc _ lexeme passed span kind _ ih =>
    exact Nat.lt_trans (ih h) (length_pass_lt (Lexeme.first_length_pos c cs) (by simp [hc]))
  | case3 reader c cs hc | case4 reader c cs hc | case5 reader c cs hc =>
    simp only [Prod.mk.injEq] at h
    rw [← h.2]
    exact length_pass_lt (Lexeme.first_length_pos c cs) (by simp [hc])
  | case6 => simp only [Prod.mk.injEq] at h; exact absurd h.1.symm hr

/-- Everything the reader yields from here on, after the readings so far.  A misplaced reader
yields nothing else. -/
def drainOnto (readings : Array Reading) (reader : Reader) : Array Reading × Reader :=
  if reader.finished then (readings, reader)
  else
    match _h : reader.next with
    | (reading, after) =>
      let readings := readings.push reading
      if _hd : reading = .misplaced ∨ after.finished then (readings, after)
      else drainOnto readings after
termination_by reader.ahead.length
decreasing_by
  simp only [not_or, Bool.not_eq_true] at _hd
  exact length_next_lt _h _hd.1 _hd.2

def drain (reader : Reader) : List Reading × Reader :=
  let (readings, reader) := reader.drainOnto #[]
  (readings.toList, reader)

end Reader
end Smaug
