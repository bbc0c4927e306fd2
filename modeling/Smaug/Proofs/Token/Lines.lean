import Mathlib
import Smaug.Proofs.Token.Blank

/-! # Lines by themselves

A source that is read without an error and ends a line there is read the same whatever follows, and
what follows is read as if it stood by itself.
-/

namespace Smaug

/-! ## Shifted readings -/

@[reducible] def Trivia.shift (offset : Nat) (trivia : Trivia) : Trivia :=
  { trivia with span := trivia.span.shift offset }

@[reducible] def Error.shift (offset : Nat) (error : Error) : Error :=
  { error with span := error.span.shift offset }

@[reducible] def Reading.shift (offset : Nat) : Reading → Reading
  | token t => token (t.shift offset)
  | error e => error (e.shift offset)
  | misplaced => misplaced

@[reducible] def Passed.shift (offset : Nat) : Passed → Passed
  | trivia kept => trivia (kept.shift offset)
  | reading yielded => reading (yielded.shift offset)

theorem Lexeme.Sort.passed_shift (file : String) (start stop offset : Nat) (sort : Lexeme.Sort) :
    sort.passed file (start + offset) (stop + offset) =
      (sort.passed file start stop).shift offset := by
  cases sort with
  | badEscape escape before =>
    simp only [passed, Passed.shift, Reading.shift, Error.shift, Span.shift]
    congr 4 <;> omega
  | _ => rfl

/-- A text further on in a source has the same regions further on. -/
theorem regions_shift (file : String) (start offset : Nat) (cs : List Char) :
    regions file (start + offset) cs =
      (regions file start cs).map fun item => (item.1.shift offset, item.2.shift offset) := by
  fun_induction regions file start cs with
  | case1 => rw [regions]; rfl
  | case2 start c cs lexeme stop ih =>
    have hstop : start + offset + Text.size ((c :: cs).take lexeme.length) = stop + offset := by
      omega
    rw [regions, List.map_cons, ← ih, ← Lexeme.Sort.passed_shift]
    simp only [show Lexeme.first c cs = lexeme from rfl, hstop]

/-! ## What is seen of a text -/

/-- Whether something is more than blanks. -/
def Passed.isVisible : Passed → Bool
  | trivia kept => kept.isComment
  | reading _ => true

def visible (file : String) (start : Nat) (cs : List Char) : List Passed :=
  ((regions file start cs).map Prod.snd).filter Passed.isVisible

section
variable (file : String)

theorem visible_nil (start : Nat) : visible file start [] = [] := by
  rw [visible, regions]
  rfl

theorem visible_cons (start : Nat) (c : Char) (cs : List Char) :
    let lexeme := Lexeme.first c cs
    let stop := start + Text.size ((c :: cs).take lexeme.length)
    visible file start (c :: cs) =
      [lexeme.sort.passed file start stop].filter Passed.isVisible ++
        visible file stop ((c :: cs).drop lexeme.length) := by
  intro lexeme stop
  rw [visible, regions, List.map_cons, ← List.singleton_append, List.filter_append]
  rfl

theorem visible_shift (start offset : Nat) (cs : List Char) :
    visible file (start + offset) cs = (visible file start cs).map (Passed.shift offset) := by
  have hv : Passed.isVisible ∘ Passed.shift offset = Passed.isVisible := by
    funext item
    cases item <;> rfl
  have hm : (regions file (start + offset) cs).map Prod.snd =
      ((regions file start cs).map Prod.snd).map (Passed.shift offset) := by
    rw [regions_shift, List.map_map, List.map_map]
    rfl
  rw [visible, hm, List.filter_map, hv, visible]

theorem visible_blank_run {c : Char} (hc : Text.isBlank c) (start : Nat) (cs : List Char) :
    visible file start (c :: cs) =
      visible file (start + Text.size (c :: cs.takeWhile Text.isBlank))
        (cs.dropWhile Text.isBlank) := by
  rw [visible_cons, Lexeme.take_first_blank hc, Lexeme.drop_first_blank hc, Lexeme.first_blank hc]
  rfl

/-- A blank at the start of a text is not seen. -/
theorem visible_blank {c : Char} (hc : Text.isBlank c) (start : Nat) (cs : List Char) :
    visible file start (c :: cs) = visible file (start + c.utf8Size) cs := by
  rw [visible_blank_run file hc]
  cases cs with
  | nil => simp
  | cons d cs =>
    cases hd : Text.isBlank d with
    | true =>
      rw [visible_blank_run file hd]
      simp [hd, Nat.add_assoc]
    | false => simp [hd]

theorem visible_blanks {ws : List Char} (hw : ∀ w ∈ ws, Text.isBlank w) (start : Nat)
    (cs : List Char) :
    visible file start (ws ++ cs) = visible file (start + Text.size ws) cs := by
  induction ws generalizing start with
  | nil => rfl
  | cons w ws ih =>
    obtain ⟨h, hw⟩ := List.forall_mem_cons.1 hw
    rw [List.cons_append, visible_blank file h, ih hw, Text.size_cons, Nat.add_assoc]

/-- A lexeme of a text that is no blanks is passed before the end of a line as at the end of the
text. -/
theorem visible_lexeme {c : Char} {cs : List Char} (hc : Text.isBlank c = false)
    (hs : (Lexeme.first c cs).sort.isSound) (start : Nat) (more : List Char) :
    let lexeme := Lexeme.first c cs
    let stop := start + Text.size ((c :: cs).take lexeme.length)
    visible file start (c :: cs ++ '\n' :: more) =
      [lexeme.sort.passed file start stop].filter Passed.isVisible ++
        visible file stop ((c :: cs).drop lexeme.length ++ '\n' :: more) := by
  intro lexeme stop
  have hfirst : Lexeme.first c (cs ++ '\n' :: more) = lexeme :=
    Lexeme.first_append_blank (by decide) hc hs (fun _ => rfl) more
  have hle := Lexeme.first_length_le c cs
  rw [List.cons_append, visible_cons, hfirst, ← List.cons_append,
    List.take_append_of_le_length hle, List.drop_append_of_le_length hle]

theorem visible_lines_cons {c : Char} {cs more : List Char} {start : Nat}
    (hs : (Lexeme.first c cs).sort.isSound)
    (ih : let rest := (c :: cs).drop (Lexeme.first c cs).length
      let stop := start + Text.size ((c :: cs).take (Lexeme.first c cs).length)
      visible file stop (rest ++ '\n' :: more) =
        visible file stop rest ++ visible file (stop + Text.size rest + 1) more) :
    visible file start (c :: cs ++ '\n' :: more) =
      visible file start (c :: cs) ++ visible file (start + Text.size (c :: cs) + 1) more := by
  have hsplit := List.take_append_drop (Lexeme.first c cs).length (c :: cs)
  simp only [Text.size_take_drop] at ih
  cases hc : Text.isBlank c with
  | true =>
    have hws : ∀ w ∈ (c :: cs).take (Lexeme.first c cs).length, Text.isBlank w := by
      rw [Lexeme.take_first_blank hc]
      exact List.forall_mem_cons.2 ⟨hc, fun w hw => List.mem_takeWhile_imp hw⟩
    have hblank (rest : List Char) := visible_blanks file hws start rest
    rw [← hsplit, List.append_assoc, hblank, hblank, ih, hsplit]
  | false => rw [visible_lexeme file hc hs, visible_cons, ih, List.append_assoc]

/-- A text that is read without an error, the end of a line, and any text: what is seen of the whole
is what is seen of the two. -/
theorem visible_lines {start : Nat} {cs : List Char} {tokens : List Token}
    (h : Lexed start cs tokens) (more : List Char) :
    visible file start (cs ++ '\n' :: more) =
      visible file start cs ++ visible file (start + Text.size cs + 1) more := by
  induction h with
  | nil =>
    rw [List.nil_append, visible_blank file (by decide), visible_nil]
    rfl
  | trivia hs _ ih => exact visible_lines_cons file (by rw [hs]; rfl) ih
  | token hs _ ih => exact visible_lines_cons file (by rw [hs]; rfl) ih

end

namespace Reader

/-- What a reader yields and the comments it keeps is what is seen of its source. -/
theorem drain_visible (source file : String) (h : source.utf8ByteSize ≤ Span.maxOffset) :
    (ofSource source file).drain.1 =
        (visible file 0 source.toList).filterMap Passed.reading? ++
          [.token (.endAt (.emptyAt source.utf8ByteSize))] ∧
      (ofSource source file).drain.2.trivia.toList.filter Trivia.isComment =
        (visible file 0 source.toList).filterMap Passed.trivia? := by
  obtain ⟨before, last, -, -, -, -, hdrain, htrivia⟩ := ofSource_run source file h
  have hreading (item : Span × Passed) : item.2.reading? =
      if item.2.isVisible then item.2.reading? else none := by
    cases item.2 with
    | trivia kept => exact (ite_self none).symm
    | reading yielded => rfl
  have hcomment (item : Span × Passed) : item.2.trivia?.filter Trivia.isComment =
      if item.2.isVisible then item.2.trivia? else none := by
    cases item.2 with
    | trivia kept => rfl
    | reading yielded => rfl
  rw [hdrain]
  constructor
  · simp only [visible, List.filterMap_filter, List.filterMap_map, Function.comp_def, ← hreading]
  · rw [htrivia, List.filter_filterMap]
    simp only [visible, List.filterMap_filter, List.filterMap_map, Function.comp_def, hcomment]

/-- A source that is read without an error may be followed by any other one on a new line: a reader
yields the tokens of the first, and then all that the second yields by itself, further on.  The
comments that it keeps are those of the first and then those of the second. -/
theorem ofSource_lines {a b file : String} {tokens : Tokens}
    (ha : Tokens.ofSource a file {} = .ok tokens)
    (hs : a.utf8ByteSize + 1 + b.utf8ByteSize ≤ Span.maxOffset) :
    let both := (ofSource (a ++ "\n" ++ b) file).drain
    let first := (ofSource a file).drain
    let second := (ofSource b file).drain
    ∃ readings, first.1 = readings ++ [.token (.endAt (.emptyAt a.utf8ByteSize))] ∧
      both.1 = readings ++ second.1.map (Reading.shift (a.utf8ByteSize + 1)) ∧
      both.2.trivia.toList.filter Trivia.isComment =
        first.2.trivia.toList.filter Trivia.isComment ++
          (second.2.trivia.toList.filter Trivia.isComment).map
            (Trivia.shift (a.utf8ByteSize + 1)) := by
  intro both first second
  have hnewline : "\n".utf8ByteSize = 1 := rfl
  have hsize : (a ++ "\n" ++ b).utf8ByteSize = b.utf8ByteSize + (a.utf8ByteSize + 1) := by
    rw [String.utf8ByteSize_append, String.utf8ByteSize_append, hnewline, Nat.add_comm]
  have htext : (a ++ "\n" ++ b).toList = a.toList ++ '\n' :: b.toList := by simp
  have hlines := visible_lines file (Tokens.ofSource_lexed ha) b.toList
  rw [Nat.zero_add, Text.size_toList] at hlines
  have hshift := visible_shift file 0 (a.utf8ByteSize + 1) b.toList
  rw [Nat.zero_add] at hshift
  obtain ⟨hfirst, hfirst'⟩ := drain_visible a file (by omega)
  obtain ⟨hsecond, hsecond'⟩ := drain_visible b file (by omega)
  obtain ⟨hboth, hboth'⟩ := drain_visible (a ++ "\n" ++ b) file (by omega)
  rw [htext, hlines, hshift, List.filterMap_append, List.filterMap_map] at hboth hboth'
  have hreading : Passed.reading? ∘ Passed.shift (a.utf8ByteSize + 1) =
      fun item => item.reading?.map (Reading.shift (a.utf8ByteSize + 1)) := by
    funext item
    cases item <;> rfl
  have htrivia : Passed.trivia? ∘ Passed.shift (a.utf8ByteSize + 1) =
      fun item => item.trivia?.map (Trivia.shift (a.utf8ByteSize + 1)) := by
    funext item
    cases item <;> rfl
  refine ⟨_, hfirst, ?_, ?_⟩
  · rw [hboth, hsecond, hreading, hsize, List.map_append, List.map_filterMap, List.append_assoc]
    rfl
  · rw [hboth', hfirst', hsecond', htrivia, List.map_filterMap]

theorem ofSource_lines_comment :
    let tokens : Tokens :=
      { tokens := [⟨.identifier, "a", ⟨0, 1⟩⟩, .endAt (.emptyAt 5)]
        trivia := #[⟨.whitespace, ⟨1, 2⟩⟩, ⟨.lineComment, ⟨2, 5⟩⟩] }
    let both := (ofSource ("a //b" ++ "\n" ++ "/* \"") "line.sm").drain
    let first := (ofSource "a //b" "line.sm").drain
    let second := (ofSource "/* \"" "line.sm").drain
    Tokens.ofSource "a //b" "line.sm" {} = .ok tokens ∧
      "a //b".utf8ByteSize + 1 + "/* \"".utf8ByteSize ≤ Span.maxOffset ∧
      ∃ readings, first.1 = readings ++ [.token (.endAt (.emptyAt 5))] ∧
        both.1 = readings ++ second.1.map (Reading.shift 6) ∧
        both.2.trivia.toList.filter Trivia.isComment =
          first.2.trivia.toList.filter Trivia.isComment ++
            (second.2.trivia.toList.filter Trivia.isComment).map (Trivia.shift 6) := by
  intro tokens both first second
  have ha : Tokens.ofSource "a //b" "line.sm" {} = .ok tokens := by decide +kernel
  have hs : "a //b".utf8ByteSize + 1 + "/* \"".utf8ByteSize ≤ Span.maxOffset := by decide
  exact ⟨ha, hs, ofSource_lines ha hs⟩

end Reader

end Smaug
