/-! # Byte offsets and places in a text

Text is a list of characters; offsets into it count the bytes of its encoding.  `cut?` splits a
text at an offset that falls between two characters, and `dropBytes` moves past any number of
bytes and says how far inside a character that ends.
-/

namespace Smaug.Text

def size : List Char → Nat
  | [] => 0
  | c :: cs => c.utf8Size + size cs

@[simp] theorem size_nil : size [] = 0 := rfl

@[simp] theorem size_cons (c : Char) (cs : List Char) : size (c :: cs) = c.utf8Size + size cs :=
  rfl

@[simp] theorem size_append (cs ds : List Char) : size (cs ++ ds) = size cs + size ds := by
  induction cs with
  | nil => simp
  | cons c cs ih => simp [ih, Nat.add_assoc]

/-- The number of characters, on top of `count`, in the first `n` bytes of a text. -/
def charsBefore? (count : Nat) : Nat → List Char → Option Nat
  | 0, _ => some count
  | _ + 1, [] => none
  | n + 1, c :: cs =>
    if c.utf8Size ≤ n + 1 then charsBefore? (count + 1) (n + 1 - c.utf8Size) cs else none

/-- The text before byte `n` and the text from there on, unless `n` lies inside a character or
beyond the end. -/
def cut? (n : Nat) (cs : List Char) : Option (List Char × List Char) :=
  (charsBefore? 0 n cs).map cs.splitAt

/-- Moves past `n` bytes: the characters from the last boundary on, and the number of bytes passed
since then.  That number is positive only inside a character or beyond the end. -/
def dropBytes : Nat → List Char → List Char × Nat
  | n, [] => ([], n)
  | n, c :: cs => if c.utf8Size ≤ n then dropBytes (n - c.utf8Size) cs else (c :: cs, n)

/-! ## Lines and columns

A byte offset as people speak of it: a line, counted from one, and a column, counted in bytes from
zero.  The newline belongs to the line it ends; an offset beyond the end is taken as the end.
-/

structure Place where
  line : Nat
  /-- The text of the line, with the newline that ends it. -/
  text : List Char
  column : Nat

/-- The place of an offset in the rest `cs` of a text, which starts with the line of that number. -/
def locate (line : Nat) (offset : Nat) (cs : List Char) : Place :=
  let head := cs.takeWhile (· != '\n')
  match _h : cs.dropWhile (· != '\n') with
  | [] => ⟨line, head, offset⟩
  | newline :: rest =>
    let text := head ++ [newline]
    if offset < size text then ⟨line, text, offset⟩
    else locate (line + 1) (offset - size text) rest
termination_by cs.length
decreasing_by
  have := (List.dropWhile_suffix (p := (· != '\n')) (l := cs)).length_le
  simp only [_h, List.length_cons] at this
  omega

def placeOf (source : String) (offset : Nat) : Place :=
  locate 1 (min offset source.utf8ByteSize) source.toList

end Smaug.Text
