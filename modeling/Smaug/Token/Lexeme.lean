import Smaug.Error
import Smaug.Text.Character

/-! # Lexemes

A lexeme is the piece of text that is read at one go: a run of blanks, a comment, a token, or
malformed text up to where reading can go on.  `Lexeme.first` reads the one at the head of a text;
a lexeme is never empty and never longer than the text.
-/

namespace Smaug

inductive Lexeme.Sort where
  | trivia (kind : Trivia.Kind)
  | token (kind : Token.Kind) (value : String)
  /-- A string literal or comment without an end, or a character that starts nothing. -/
  | malformed (cause : Cause)
  /-- A string literal with an escape that does not exist, `before` bytes into the literal. -/
  | badEscape (escape : Char) (before : Nat)
deriving DecidableEq

/-- A lexeme at the head of a text and the number of characters it takes. -/
structure Lexeme where
  length : Nat
  sort : Lexeme.Sort
deriving DecidableEq

namespace Lexeme

def startsName (c : Char) : Bool := c == '_' || Text.isLetter c

def continuesName (c : Char) : Bool := startsName c || c.isDigit

def continuesInteger (c : Char) : Bool := c.isDigit || c == '_'

/-- The number of characters of a comment, on top of `count`, in the text after its opening. -/
def commentLength? (count : Nat) : List Char → Option Nat
  | '*' :: '/' :: _ => some (count + 2)
  | _ :: cs => commentLength? (count + 1) cs
  | [] => none

/-- The number of characters, on top of `count`, before the quote that closes a string literal.  A
backslash takes the next character with it. -/
def bodyLength? (count : Nat) : List Char → Option Nat
  | '"' :: _ => some count
  | '\\' :: _ :: cs => bodyLength? (count + 2) cs
  | _ :: cs => bodyLength? (count + 1) cs
  | [] => none

/-- The text that the body of a string literal stands for, or its first bad escape with the number
of bytes before it.  `decoded` is the text so far, in reverse. -/
def decodeBody (before : Nat) (decoded : List Char) : List Char → Except (Char × Nat) String
  | [] => .ok (String.ofList decoded.reverse)
  | '\\' :: '"' :: cs => decodeBody (before + 2) ('"' :: decoded) cs
  | '\\' :: '\\' :: cs => decodeBody (before + 2) ('\\' :: decoded) cs
  | '\\' :: 'n' :: cs => decodeBody (before + 2) ('\n' :: decoded) cs
  | '\\' :: c :: _ => .error (c, before)
  | c :: cs => decodeBody (before + c.utf8Size) (c :: decoded) cs

def stringLiteral (cs : List Char) : Lexeme :=
  match bodyLength? 0 cs with
  | none => ⟨cs.length + 1, .malformed .unterminatedString⟩
  | some n =>
    match decodeBody 1 [] (cs.take n) with
    | .ok value => ⟨n + 2, .token .string value⟩
    | .error (escape, before) => ⟨n + 2, .badEscape escape before⟩

def blockComment (cs : List Char) : Lexeme :=
  match commentLength? 2 cs with
  | none => ⟨cs.length + 2, .malformed .unterminatedComment⟩
  | some n => ⟨n, .trivia .blockComment⟩

/-- The line comment, up to the end of its line, whose opening `//` stands before the text `cs`. -/
def lineComment (cs : List Char) : Lexeme :=
  ⟨(cs.takeWhile (· != '\n')).length + 2, .trivia .lineComment⟩

def marks : List (List Char × Token.Kind) :=
  Token.Kind.punctuation.map fun kind => (kind.describe.toList, kind)

def mark (c : Char) (cs : List Char) : Lexeme :=
  match marks.find? fun (spelling, _) => spelling.isPrefixOf (c :: cs) with
  | some (spelling, kind) => ⟨spelling.length, .token kind (String.ofList spelling)⟩
  | none => ⟨1, .malformed (.strayCharacter c)⟩

/-- The lexeme at the head of the text `c :: cs`. -/
def first (c : Char) (cs : List Char) : Lexeme :=
  if Text.isBlank c then ⟨(cs.takeWhile Text.isBlank).length + 1, .trivia .whitespace⟩
  else if c = '/' ∧ cs.head? = some '/' then lineComment cs.tail
  else if c = '/' ∧ cs.head? = some '*' then blockComment cs.tail
  else if c = '"' then stringLiteral cs
  else if startsName c then
    let word := c :: cs.takeWhile continuesName
    let text := String.ofList word
    ⟨word.length, .token (.ofWord text) text⟩
  else if c.isDigit then
    let digits := c :: cs.takeWhile continuesInteger
    ⟨digits.length, .token .integer (String.ofList digits)⟩
  else mark c cs

theorem marks_length_pos : ∀ m ∈ marks, 0 < m.1.length := by decide

theorem le_commentLength? {count n : Nat} {cs : List Char} (h : commentLength? count cs = some n) :
    count ≤ n := by
  fun_induction commentLength? count cs with
  | case1 => simp at h; omega
  | case2 count c cs _ ih => have := ih h; omega
  | case3 => simp at h

/-- A lexeme is never empty. -/
theorem first_length_pos (c : Char) (cs : List Char) : 0 < (first c cs).length := by
  unfold first
  split
  · simp
  split
  · simp [lineComment]
  split
  · simp only [blockComment]
    split
    · simp
    · rename_i n h
      have := le_commentLength? h
      simp only
      omega
  split
  · simp only [stringLiteral]
    split
    · simp
    · split <;> simp
  split
  · simp
  split
  · simp
  · simp only [mark]
    split
    · rename_i m _ h
      exact marks_length_pos _ (List.mem_of_find?_eq_some h)
    · simp

end Lexeme
end Smaug
