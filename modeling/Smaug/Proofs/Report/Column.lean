import Mathlib
import Smaug.Parse.Parsed
import Smaug.Proofs.Report.Caret

/-! # The column of a caret

The caret of a report stands as many columns behind the start of the text above it as there are
bytes between them in the source.  So it stands below its character where these are the bytes of
one-byte characters, and beside it on every other line.
-/

namespace Smaug

namespace Text

theorem length_le_size (cs : List Char) : cs.length ≤ size cs := by
  induction cs with
  | nil => exact Nat.le_refl 0
  | cons c cs ih =>
    have := c.utf8Size_pos
    rw [List.length_cons, size_cons]
    omega

/-- A text has as many bytes as characters where each of these takes one. -/
theorem size_eq_length_iff {cs : List Char} :
    size cs = cs.length ↔ ∀ c ∈ cs, c.utf8Size = 1 := by
  induction cs with
  | nil => exact iff_of_true rfl nofun
  | cons c cs ih =>
    have hc := c.utf8Size_pos
    have hcs := length_le_size cs
    rw [List.forall_mem_cons, ← ih, List.length_cons, size_cons]
    omega

/-- A first line has no newline but the one that may end it. -/
theorem exists_firstLine (cs : List Char) :
    ∃ body tail, firstLine cs = body ++ tail ∧ '\n' ∉ body ∧ ∀ c ∈ tail, isBlank c := by
  rcases line_cases cs with h | ⟨head, rest, rfl, hhead⟩
  · exact ⟨cs, [], by rw [firstLine_of_line h, List.append_nil], h, nofun⟩
  · exact ⟨head, ['\n'], firstLine_append hhead rest, hhead,
      List.forall_mem_singleton.2 (by decide)⟩

end Text

namespace Report

/-! ## Indentation -/

def unindented (cs : List Char) : List Char := cs.dropWhile fun c => c == ' ' || c == '\t'

theorem unindented_cons (c : Char) (cs : List Char) :
    unindented (c :: cs) = if c = ' ' ∨ c = '\t' then unindented cs else c :: cs := by
  simp [unindented, List.dropWhile_cons]

theorem indentation_cons (c : Char) (cs : List Char) :
    indentation (c :: cs) = if c = ' ' ∨ c = '\t' then indentation cs + 1 else 0 := by
  simp only [indentation, List.takeWhile_cons, Bool.or_eq_true, beq_iff_eq, apply_ite List.length,
    List.length_cons, List.length_nil]

/-- Bytes behind the indentation are counted from the first character that is none. -/
theorem size_sub_indentation (lead rest : List Char) :
    Text.size lead - indentation (lead ++ rest) = Text.size (unindented lead) := by
  induction lead with
  | nil => exact Nat.zero_sub _
  | cons c lead ih =>
    rw [List.cons_append, indentation_cons, unindented_cons]
    split
    · rename_i hc
      have hsize : c.utf8Size = 1 := by rcases hc with rfl | rfl <;> rfl
      rw [Text.size_cons, hsize]
      omega
    · rfl

/-! ## The lines of a report -/

theorem trimEnd_append {cs blanks : List Char} (h : ∀ c ∈ blanks, Text.isBlank c) :
    trimEnd (cs ++ blanks) = trimEnd cs := by
  rw [trimEnd, List.reverse_append,
    List.dropWhile_append_of_pos fun c hc => h c (List.mem_reverse.1 hc), trimEnd]

theorem mem_of_mem_trimEnd {c : Char} {cs : List Char} (h : c ∈ trimEnd cs) : c ∈ cs :=
  List.mem_reverse.1 ((List.dropWhile_sublist _).mem (List.mem_reverse.1 h))

/-- How far behind the start of the shown text the caret stands.  The text is in the last line but
one, behind the line's number, a bar and a blank, and the caret is in the last. -/
def caretOffset? (report : String) : Option Int :=
  match (report.toList.splitOn '\n').reverse with
  | _ :: arrow :: shown :: _ =>
    if '^' ∈ arrow ∧ '|' ∈ shown then some (arrow.idxOf '^' - (shown.idxOf '|' + 2)) else none
  | _ => none

theorem caretOffset?_of_lines {report : String} {above shown arrow : List Char}
    (h : report.toList = above ++ '\n' :: (shown ++ '\n' :: (arrow ++ ['\n'])))
    (hs : '\n' ∉ shown) (ha : '\n' ∉ arrow) (hmarks : '^' ∈ arrow ∧ '|' ∈ shown) :
    caretOffset? report = some ((arrow.idxOf '^' : Int) - (shown.idxOf '|' + 2)) := by
  have hsplit : report.toList.splitOn '\n' = above.splitOn '\n' ++ [shown, arrow, []] := by
    rw [h, List.splitOn_append_cons_self, List.splitOn_append_cons_self_of_not_mem hs,
      List.splitOn_append_cons_self_of_not_mem ha]
    rfl
  rw [caretOffset?, hsplit, List.reverse_append]
  exact if_pos hmarks

def shownLine (place : Text.Place) : List Char :=
  (toString place.line).toList ++ ' ' :: '|' :: ' ' ::
    trimEnd (place.text.drop (indentation place.text))

def arrowLine (place : Text.Place) : List Char :=
  List.replicate ((toString place.line).length + 1) ' ' ++ '|' :: ' ' ::
    (List.replicate (place.column - indentation place.text) '-' ++ ['^'])

theorem toList_of_caret? {error : Error} {source file report : String}
    (h : caret? error source file = some report) :
    let place := Text.placeOf source error.span.start
    ∃ above, report.toList =
      above ++ '\n' :: (shownLine place ++ '\n' :: (arrowLine place ++ ['\n'])) := by
  intro place
  have hbar : "|".length = 1 := rfl
  have hcaret : "^".length = 1 := rfl
  obtain ⟨arrow, harrow, rfl⟩ := Option.map_eq_some_iff.1 h
  rw [padLeft?, Option.ite_none_right_eq_some] at harrow
  obtain ⟨-, harrow⟩ := harrow
  cases harrow
  refine ⟨(heading error ++ "\n-> " ++ file ++ "\n" ++
    padLeft ((toString place.line).length + 2) ' ' "|").toList, ?_⟩
  simp [padLeft, arrowWidth, shownLine, arrowLine, hbar, hcaret, place]

/-- A line's number has digits only. -/
theorem isDigit_of_mem_number {n : Nat} {c : Char} (h : c ∈ (toString n).toList) : c.isDigit := by
  rw [Nat.toString_eq_ofList_toDigits, String.toList_ofList] at h
  exact Nat.isDigit_of_mem_toDigits (by decide) (by decide) h

theorem not_mem_number {c : Char} (h : c.isDigit = false) (n : Nat) : c ∉ (toString n).toList :=
  fun hc => by simp [isDigit_of_mem_number hc] at h

/-- The shown text has no newline. -/
theorem newline_not_mem_shownLine {line : List Char} (h : '\n' ∉ line) (cs : List Char)
    (n column : Nat) : '\n' ∉ shownLine ⟨n, line ++ Text.firstLine cs, column⟩ := by
  obtain ⟨body, tail, hline, hbody, htail⟩ := Text.exists_firstLine cs
  have hshown (m : Nat) : '\n' ∉ trimEnd ((line ++ Text.firstLine cs).drop m) := by
    rw [hline, ← List.append_assoc, List.drop_append,
      trimEnd_append fun c hc => htail c (List.mem_of_mem_drop hc)]
    intro hmem
    simpa [h, hbody] using List.mem_of_mem_drop (mem_of_mem_trimEnd hmem)
  have hnumber : '\n' ∉ (toString n).toList := not_mem_number rfl n
  simp only [shownLine, List.mem_append, List.mem_cons, hnumber, hshown]
  decide

theorem bar_mem_shownLine (place : Text.Place) : '|' ∈ shownLine place := by
  simp [shownLine]

theorem idxOf_bar_shownLine (place : Text.Place) :
    (shownLine place).idxOf '|' = (toString place.line).length + 1 := by
  rw [shownLine, List.idxOf_append_of_notMem (not_mem_number rfl _), String.length_toList]
  rfl

theorem newline_not_mem_arrowLine (place : Text.Place) : '\n' ∉ arrowLine place := by
  simp [arrowLine]

theorem caret_mem_arrowLine (place : Text.Place) : '^' ∈ arrowLine place := by
  simp [arrowLine]

theorem idxOf_caret_arrowLine (place : Text.Place) :
    (arrowLine place).idxOf '^' =
      (toString place.line).length + 3 + (place.column - indentation place.text) := by
  rw [arrowLine, List.idxOf_append_of_notMem (by simp), List.idxOf_cons_ne _ (by decide),
    List.idxOf_cons_ne _ (by decide), List.idxOf_append_of_notMem (by simp),
    List.idxOf_cons_self, List.length_replicate, List.length_replicate]
  omega

/-- The caret stands behind the start of the shown text by the column less the indentation. -/
theorem caretOffset?_of_caret? {error : Error} {source file report : String} {place : Text.Place}
    (hplace : Text.placeOf source error.span.start = place) (hs : '\n' ∉ shownLine place)
    (h : caret? error source file = some report) :
    caretOffset? report = some ((place.column - indentation place.text : Nat) : Int) := by
  subst hplace
  obtain ⟨above, habove⟩ := toList_of_caret? h
  rw [caretOffset?_of_lines habove hs (newline_not_mem_arrowLine _)
      ⟨caret_mem_arrowLine _, bar_mem_shownLine _⟩, idxOf_bar_shownLine, idxOf_caret_arrowLine]
  congr 1
  omega

/-! ## Where the caret stands -/

/-- The place of an offset between two characters. -/
theorem placeOf_boundary {source : String} {before after : List Char}
    (h : source.toList = before ++ after) :
    Text.placeOf source (Text.size before) =
      ⟨1 + before.count '\n', Text.lastLine before ++ Text.firstLine after,
        Text.size (Text.lastLine before)⟩ := by
  have hsize : Text.size before ≤ source.utf8ByteSize := by
    rw [← Text.size_toList, h, Text.size_append]
    exact Nat.le_add_right _ _
  exact Text.placeOf_isInside h (Nat.min_eq_left hsize).symm (.inl rfl)

/-- A report is drawn unless its caret is out of reach.  Between the start of the shown text and
the caret there are as many columns as there are bytes in the source between the first character
of the line that is no indentation and the error, and none where the error stands before such a
character.  So these are as many columns as characters just where each character takes one byte. -/
theorem caret_column {error : Error} {source : String} {before after : List Char}
    (hsource : source.toList = before ++ after) (hstart : Text.size before = error.span.start)
    (file : String) :
    let lead := unindented (Text.lastLine before)
    (caret? error source file = none ↔ maxWidth ≤ Text.size lead) ∧
      ∀ report, caret? error source file = some report →
        caretOffset? report = some (Text.size lead : Int) ∧
          (caretOffset? report = some (lead.length : Int) ↔ ∀ c ∈ lead, c.utf8Size = 1) := by
  intro lead
  have hplace := hstart ▸ placeOf_boundary hsource
  have hlead : Text.size (Text.lastLine before) -
      indentation (Text.lastLine before ++ Text.firstLine after) = Text.size lead :=
    size_sub_indentation ..
  refine ⟨?_, fun report h => ?_⟩
  · rw [← Option.not_isSome_iff_eq_none, caret?_isSome, hplace, arrowWidth, hlead]
    omega
  · have hoffset := caretOffset?_of_caret? hplace
      (newline_not_mem_shownLine (Text.not_mem_lastLine before) _ _ _) h
    rw [hlead] at hoffset
    refine ⟨hoffset, ?_⟩
    rw [hoffset, ← Text.size_eq_length_iff, Option.some_inj, Int.natCast_inj]

set_option maxRecDepth 20000 in
/-- An error on the second line, which is indented. -/
theorem caret_column_indented :
    let source := "do a\n\t do )\n"
    let before := "do a\n\t do ".toList
    let error : Error := ⟨.unexpectedToken ")" none, ⟨10, 11⟩, [.expression], "f.sm"⟩
    (Parsed.ofSource source "f.sm" {}).errors = [error] ∧
      source.toList = before ++ [')', '\n'] ∧ Text.size before = error.span.start ∧
      unindented (Text.lastLine before) = ['d', 'o', ' '] ∧
      ∃ report, caret? error source "f.sm" = some report ∧ caretOffset? report = some 3 := by
  intro source before error
  have herrors : (Parsed.ofSource source "f.sm" {}).errors = [error] := by decide +kernel
  have hsource : source.toList = before ++ [')', '\n'] := by decide
  have hstart : Text.size before = error.span.start := by decide
  have hlead : unindented (Text.lastLine before) = ['d', 'o', ' '] := by decide
  obtain ⟨hreach, hcolumn⟩ := caret_column hsource hstart "f.sm"
  rw [hlead] at hreach hcolumn
  refine ⟨herrors, hsource, hstart, hlead, ?_⟩
  have hone : ∀ c ∈ ['d', 'o', ' '], c.utf8Size = 1 := Text.size_eq_length_iff.1 rfl
  have hdrawn : caret? error source "f.sm" ≠ none := fun h => absurd (hreach.1 h) (by decide)
  obtain ⟨report, hreport⟩ := Option.ne_none_iff_exists'.1 hdrawn
  exact ⟨report, hreport, (hcolumn report hreport).2.2 hone⟩

set_option maxRecDepth 20000 in
/-- Behind a letter of two bytes the caret stands one column too far to the right. -/
theorem caret_beside :
    let source := "let é = )"
    let before := "let é = ".toList
    let error : Error := ⟨.unexpectedToken ")" none, ⟨9, 10⟩, [.expression], "f.sm"⟩
    let report := "Error: UnexpectedToken (found `)`, expected expression)\n-> f.sm\n  |\n" ++
      "1 | let é = )\n  | ---------^\n"
    (Parsed.ofSource source "f.sm" {}).errors = [error] ∧
      source.toList = before ++ [')'] ∧ Text.size before = error.span.start ∧
      caret? error source "f.sm" = some report ∧ caretOffset? report = some 9 ∧
      (unindented (Text.lastLine before)).length = 8 := by
  decide +kernel

end Report
end Smaug
