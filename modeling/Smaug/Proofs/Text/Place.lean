import Mathlib.Data.List.DropRight
import Mathlib.Tactic.SplitIfs
import Smaug.Proofs.Token.Order
import Smaug.Text.Bytes

/-! # The line and the column of an offset

An offset lies between two characters of a text or inside one.  Its line begins behind the last
newline before that character and ends with the next one, and its number counts the newlines passed.
-/

namespace Smaug.Text

/-! ## Lines -/

def firstLine (cs : List Char) : List Char :=
  cs.takeWhile (· != '\n') ++ (cs.dropWhile (· != '\n')).take 1

/-- What stands behind the last newline of a text. -/
def lastLine (cs : List Char) : List Char := cs.rtakeWhile (· != '\n')

theorem takeWhile_line {head : List Char} (h : '\n' ∉ head) (rest : List Char) :
    (head ++ '\n' :: rest).takeWhile (· != '\n') = head := by
  rw [List.takeWhile_append_of_pos fun c hc => by simpa using ne_of_mem_of_not_mem hc h,
    List.takeWhile_cons_of_neg (by decide), List.append_nil]

theorem dropWhile_line {head : List Char} (h : '\n' ∉ head) (rest : List Char) :
    (head ++ '\n' :: rest).dropWhile (· != '\n') = '\n' :: rest := by
  rw [List.dropWhile_append_of_pos fun c hc => by simpa using ne_of_mem_of_not_mem hc h,
    List.dropWhile_cons_of_neg (by decide)]

theorem takeWhile_of_line {cs : List Char} (h : '\n' ∉ cs) : cs.takeWhile (· != '\n') = cs :=
  List.takeWhile_eq_self_iff.2 fun c hc => by simpa using ne_of_mem_of_not_mem hc h

theorem dropWhile_of_line {cs : List Char} (h : '\n' ∉ cs) : cs.dropWhile (· != '\n') = [] :=
  List.dropWhile_eq_nil_iff.2 fun c hc => by simpa using ne_of_mem_of_not_mem hc h

theorem firstLine_of_line {cs : List Char} (h : '\n' ∉ cs) : firstLine cs = cs := by
  rw [firstLine, takeWhile_of_line h, dropWhile_of_line h, List.take_nil, List.append_nil]

theorem firstLine_append {head : List Char} (h : '\n' ∉ head) (rest : List Char) :
    firstLine (head ++ '\n' :: rest) = head ++ ['\n'] := by
  rw [firstLine, takeWhile_line h, dropWhile_line h]
  rfl

/-- A line does not end before a text without a newline does. -/
theorem firstLine_append_left {line : List Char} (h : '\n' ∉ line) (cs : List Char) :
    firstLine (line ++ cs) = line ++ firstLine cs := by
  have hline : ∀ c ∈ line, (c != '\n') = true := fun c hc => by
    simpa using ne_of_mem_of_not_mem hc h
  rw [firstLine, List.takeWhile_append_of_pos hline, List.dropWhile_append_of_pos hline,
    List.append_assoc, firstLine]

theorem lastLine_of_line {cs : List Char} (h : '\n' ∉ cs) : lastLine cs = cs :=
  List.rtakeWhile_eq_self_iff.2 fun c hc => by simpa using ne_of_mem_of_not_mem hc h

theorem lastLine_append (head rest : List Char) :
    lastLine (head ++ '\n' :: rest) = lastLine rest := by
  induction rest using List.reverseRecOn with
  | nil => exact List.rtakeWhile_concat_neg _ _ _ (by decide)
  | append_singleton rest c ih =>
    rw [← List.cons_append, ← List.append_assoc]
    unfold lastLine at ih ⊢
    rw [List.rtakeWhile_concat, List.rtakeWhile_concat, ih]

theorem not_mem_lastLine (cs : List Char) : '\n' ∉ lastLine cs := fun h => by
  simpa using List.mem_rtakeWhile_imp h

/-- A text is what ends with its last newline, and its last line. -/
theorem exists_append_lastLine (cs : List Char) :
    ∃ lines, cs = lines ++ lastLine cs ∧ (lines = [] ∨ lines.getLast? = some '\n') := by
  refine ⟨cs.rdropWhile (· != '\n'), (List.rdropWhile_append_rtakeWhile ..).symm, ?_⟩
  by_cases hne : cs.rdropWhile (· != '\n') = []
  · exact .inl hne
  · right
    rw [List.getLast?_eq_some_getLast hne]
    simpa using List.rdropWhile_last_not _ _ hne

/-- Either there is no newline in a text, or a first line ends with one. -/
theorem line_cases (cs : List Char) :
    '\n' ∉ cs ∨ ∃ head rest, cs = head ++ '\n' :: rest ∧ '\n' ∉ head := by
  by_cases h : '\n' ∈ cs
  · exact .inr (List.eq_append_cons_of_mem h)
  · exact .inl h

/-! ## Looking for an offset -/

/-- A text with no newline is one line. -/
theorem locate_of_line {cs : List Char} (h : '\n' ∉ cs) (line offset : Nat) :
    locate line offset cs = ⟨line, cs, offset⟩ := by
  unfold locate
  split
  · rw [takeWhile_of_line h]
  · rename_i hc
    rw [dropWhile_of_line h] at hc
    cases hc

theorem locate_append {head : List Char} (h : '\n' ∉ head) (rest : List Char)
    (line offset : Nat) :
    locate line offset (head ++ '\n' :: rest) =
      if offset < size head + 1 then ⟨line, head ++ ['\n'], offset⟩
      else locate (line + 1) (offset - (size head + 1)) rest := by
  have hsize : size (head ++ ['\n']) = size head + 1 := size_append ..
  conv_lhs => unfold locate
  split
  · rename_i hc
    rw [dropWhile_line h] at hc
    cases hc
  · rename_i hc
    rw [dropWhile_line h] at hc
    cases hc
    simp only [takeWhile_line h, hsize]

/-- The offset lies `inner` bytes behind the start of a text: at it, or inside its first
character. -/
def IsInside (inner : Nat) (cs : List Char) : Prop :=
  inner = 0 ∨ ∃ c rest, cs = c :: rest ∧ inner < c.utf8Size

theorem exists_isInside {cs : List Char} {offset : Nat} (h : offset ≤ size cs) :
    ∃ before after inner, cs = before ++ after ∧ size before + inner = offset ∧
      IsInside inner after := by
  induction cs generalizing offset with
  | nil => exact ⟨[], [], 0, rfl, (Nat.le_zero.1 h).symm, .inl rfl⟩
  | cons c cs ih =>
    by_cases hc : offset < c.utf8Size
    · exact ⟨[], c :: cs, offset, rfl, Nat.zero_add _, .inr ⟨c, cs, rfl, hc⟩⟩
    · rw [size_cons] at h
      obtain ⟨before, after, inner, rfl, hsize, hinner⟩ :=
        ih (show offset - c.utf8Size ≤ size cs by omega)
      refine ⟨c :: before, after, inner, rfl, ?_, hinner⟩
      rw [size_cons]
      omega

/-- Inside the first character there is room before the end of the first line. -/
theorem IsInside.lt_size {inner : Nat} {head rest : List Char}
    (h : IsInside inner (head ++ '\n' :: rest)) : inner < size head + 1 := by
  rcases h with rfl | ⟨c, cs, hc, hinner⟩
  · exact Nat.succ_pos _
  · cases head with
    | nil =>
      cases hc
      exact hinner
    | cons d head =>
      cases hc
      rw [size_cons]
      omega

theorem IsInside.le_size {inner : Nat} {cs : List Char} (h : IsInside inner cs) :
    inner ≤ size (firstLine cs) := by
  rcases line_cases cs with hline | ⟨head, rest, rfl, hhead⟩
  · rw [firstLine_of_line hline]
    rcases h with rfl | ⟨c, rest, rfl, hinner⟩
    · exact Nat.zero_le _
    · rw [size_cons]
      omega
  · rw [firstLine_append hhead, size_append]
    exact h.lt_size.le

theorem locate_isInside {before after : List Char} {inner : Nat} (h : IsInside inner after)
    (line : Nat) :
    locate line (size before + inner) (before ++ after) =
      ⟨line + before.count '\n', lastLine before ++ firstLine after,
        size (lastLine before) + inner⟩ := by
  rcases line_cases before with hbefore | ⟨head, rest, rfl, hhead⟩
  · rw [lastLine_of_line hbefore, List.count_eq_zero.2 hbefore]
    rcases line_cases after with hafter | ⟨head, rest, rfl, hhead⟩
    · rw [firstLine_of_line hafter, locate_of_line (by simp [hbefore, hafter])]
      rfl
    · have hlt := h.lt_size
      rw [firstLine_append hhead, ← List.append_assoc, locate_append (by simp [hbefore, hhead]),
        if_pos (by rw [size_append]; omega), List.append_assoc]
      rfl
  · have hsize : size (head ++ '\n' :: rest) + inner - (size head + 1) = size rest + inner := by
      rw [size_append, size_cons, show '\n'.utf8Size = 1 from rfl]
      omega
    rw [List.append_assoc, List.cons_append, locate_append hhead, if_neg ?_, hsize,
      locate_isInside h, lastLine_append]
    · simp [List.count_eq_zero.2 hhead]
      omega
    · rw [size_append, size_cons, show '\n'.utf8Size = 1 from rfl]
      omega
termination_by before.length

theorem placeOf_isInside {source : String} {before after : List Char} {inner offset : Nat}
    (hsource : source.toList = before ++ after)
    (hsize : size before + inner = min offset source.utf8ByteSize) (h : IsInside inner after) :
    placeOf source offset =
      ⟨1 + before.count '\n', lastLine before ++ firstLine after,
        size (lastLine before) + inner⟩ := by
  rw [placeOf, ← hsize, hsource, locate_isInside h]

/-! ## Newlines as bytes -/

def bytes (source : String) : List UInt8 := source.toUTF8.data.toList

/-- The byte of a newline, which no other character has in its encoding. -/
def newlineByte : UInt8 := 0x0a

theorem bytes_eq (source : String) :
    bytes source = source.toList.flatMap String.utf8EncodeChar := by
  conv_lhs => rw [bytes, ← String.ofList_toList (s := source)]
  rw [String.toUTF8_eq_toByteArray, String.toByteArray_ofList, List.utf8Encode,
    List.toList_data_toByteArray]

theorem length_encoded (cs : List Char) : (cs.flatMap String.utf8EncodeChar).length = size cs := by
  induction cs with
  | nil => rfl
  | cons c cs ih =>
    rw [List.flatMap_cons, List.length_append, String.length_utf8EncodeChar, ih]
    rfl

theorem newlineByte_not_mem {c : Char} (h : c ≠ '\n') :
    newlineByte ∉ String.utf8EncodeChar c := by
  have hbyte : newlineByte.toNat = 10 := rfl
  have hcode : c.val.toNat ≠ 10 := fun hc => h (Char.ext (UInt32.toNat_inj.1 hc))
  unfold String.utf8EncodeChar
  dsimp only
  generalize c.val.toNat = code at hcode
  -- in an encoding of more than one byte every byte is 128 or more
  split_ifs <;>
    simp only [List.mem_cons, List.not_mem_nil, or_false, ← UInt8.toNat_inj, UInt8.toNat_ofNat',
      hbyte] <;>
    omega

theorem count_newlineByte (cs : List Char) :
    (cs.flatMap String.utf8EncodeChar).count newlineByte = cs.count '\n' := by
  induction cs with
  | nil => rfl
  | cons c cs ih =>
    rw [List.flatMap_cons, List.count_append, ih]
    by_cases hc : c = '\n'
    · subst hc
      rw [List.count_cons_self, Nat.add_comm]
      rfl
    · rw [List.count_cons_of_ne hc, List.count_eq_zero.2 (newlineByte_not_mem hc), Nat.zero_add]

/-- A character that is cut through is no newline. -/
theorem count_take_newlineByte {before after : List Char} {inner : Nat}
    (h : IsInside inner after) :
    (((before ++ after).flatMap String.utf8EncodeChar).take (size before + inner)).count
      newlineByte = before.count '\n' := by
  rw [List.flatMap_append, ← length_encoded, List.take_length_add_append, List.count_append,
    count_newlineByte, Nat.add_eq_left]
  rcases h with rfl | ⟨c, rest, rfl, hinner⟩
  · rw [List.take_zero, List.count_nil]
  by_cases hc : c = '\n'
  · obtain rfl : inner = 0 := by
      rw [hc] at hinner
      exact Nat.lt_one_iff.1 hinner
    rw [List.take_zero, List.count_nil]
  · have hlength : inner ≤ (String.utf8EncodeChar c).length := by
      rw [String.length_utf8EncodeChar]
      exact hinner.le
    rw [List.flatMap_cons, List.take_append_of_le_length hlength]
    exact List.count_eq_zero.2 fun h => newlineByte_not_mem hc (List.mem_of_mem_take h)

/-- Every offset has a place, also one inside a character or beyond the end, which counts as the
end: the number of its line is one more than the newlines among the bytes before it, its column
leads back to where a line starts, and the text of the line is the source from there up to and with
the next newline, or to the end. -/
theorem placeOf_line (source : String) (offset : Nat) :
    let position := min offset source.utf8ByteSize
    let place := placeOf source offset
    place.line = 1 + ((bytes source).take position).count newlineByte ∧
      ∃ before rest, source.toList = before ++ rest ∧ size before + place.column = position ∧
        (before = [] ∨ before.getLast? = some '\n') ∧ place.text = firstLine rest ∧
        place.column ≤ size place.text := by
  intro position place
  have hposition : position ≤ size source.toList := by
    rw [size_toList]
    exact Nat.min_le_right _ _
  obtain ⟨before, after, inner, hsource, hsize, hinner⟩ := exists_isInside hposition
  have hplace : place = ⟨1 + before.count '\n', lastLine before ++ firstLine after,
      size (lastLine before) + inner⟩ := placeOf_isInside hsource hsize hinner
  obtain ⟨lines, hlines, hstart⟩ := exists_append_lastLine before
  rw [hplace]
  refine ⟨?_, lines, lastLine before ++ after, ?_, ?_, hstart, ?_, ?_⟩
  · rw [bytes_eq, hsource, ← hsize, count_take_newlineByte hinner]
  · rw [hsource, ← List.append_assoc, ← hlines]
  · rw [← Nat.add_assoc, ← size_append, ← hlines, hsize]
  · exact (firstLine_append_left (not_mem_lastLine before) after).symm
  · rw [size_append]
    exact Nat.add_le_add_left hinner.le_size _

end Smaug.Text
