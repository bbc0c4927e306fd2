import Mathlib
import Smaug.Proofs.Token.Regions

/-! # Lexemes before a blank

A blank continues nothing but blanks and line comments, and of the blanks only the end of a line
ends a line comment.  So where the text after a lexeme is put off by a blank, the lexeme is the same
as at the end of the text.
-/

namespace Smaug

namespace Text

def blanks : List Char :=
  (blankRanges.flatMap fun (low, high) => List.range' low (high + 1 - low)).map Char.ofNat

theorem mem_of_covers {ranges : List (Nat × Nat)} {n : Nat} (h : covers ranges n) :
    n ∈ ranges.flatMap fun (low, high) => List.range' low (high + 1 - low) := by
  induction ranges with
  | nil => simp [covers] at h
  | cons range ranges ih =>
    simp only [covers, Bool.and_eq_true, Bool.or_eq_true, decide_eq_true_eq] at h
    rw [List.flatMap_cons, List.mem_append]
    rcases h.2 with hle | h
    · exact .inl (List.mem_range'_1.2 (by omega))
    · exact .inr (ih h)

theorem mem_blanks {c : Char} (h : isBlank c) : c ∈ blanks := by
  rw [← Char.ofNat_toNat c]
  exact List.mem_map_of_mem (mem_of_covers h)

end Text

namespace Lexeme

/-! ## Blanks -/

theorem blanks_continue_no_name : Text.blanks.any continuesName = false := by decide +kernel

theorem blanks_continue_no_integer : Text.blanks.any continuesInteger = false := by decide +kernel

section
variable {w : Char} (hw : Text.isBlank w)
include hw

theorem continuesName_blank : continuesName w = false := by
  simpa using List.any_eq_false.1 blanks_continue_no_name w (Text.mem_blanks hw)

theorem continuesInteger_blank : continuesInteger w = false := by
  simpa using List.any_eq_false.1 blanks_continue_no_integer w (Text.mem_blanks hw)

theorem ne_blank {d : Char} (hd : Text.isBlank d = false) : w ≠ d := by
  rintro rfl
  rw [hw] at hd
  cases hd

theorem head?_append_blank {d : Char} (hd : Text.isBlank d = false) (cs more : List Char) :
    (cs ++ w :: more).head? = some d ↔ cs.head? = some d := by
  cases cs with
  | nil => simpa using ne_blank hw hd
  | cons c cs => rfl

end

theorem takeWhile_append_cons {p : Char → Bool} {w : Char} (hw : p w = false)
    (cs more : List Char) : (cs ++ w :: more).takeWhile p = cs.takeWhile p := by
  induction cs with
  | nil => simp [hw]
  | cons c cs ih => simp [List.takeWhile_cons, ih]

theorem tail_append_of_head? {cs : List Char} {d : Char} (h : cs.head? = some d)
    (more : List Char) : (cs ++ more).tail = cs.tail ++ more := by
  cases cs with
  | nil => cases h
  | cons c cs => rfl

/-! ## Runs of blanks -/

theorem first_blank {c : Char} (hc : Text.isBlank c) (cs : List Char) :
    first c cs = ⟨(cs.takeWhile Text.isBlank).length + 1, .trivia .whitespace⟩ := if_pos hc

theorem take_first_blank {c : Char} (hc : Text.isBlank c) (cs : List Char) :
    (c :: cs).take (first c cs).length = c :: cs.takeWhile Text.isBlank := by
  rw [first_blank hc, List.take_succ_cons,
    ← List.prefix_iff_eq_take.1 (List.takeWhile_prefix Text.isBlank)]

theorem drop_first_blank {c : Char} (hc : Text.isBlank c) (cs : List Char) :
    (c :: cs).drop (first c cs).length = cs.dropWhile Text.isBlank := by
  have hsplit := List.take_append_drop (first c cs).length (c :: cs)
  rw [take_first_blank hc, List.cons_append] at hsplit
  exact List.append_cancel_left
    ((List.cons_eq_cons.1 hsplit).2.trans List.takeWhile_append_dropWhile.symm)

/-! ## Lexemes that reach to the end of a text or less -/

theorem commentLength?_le {count n : Nat} {cs : List Char} (h : commentLength? count cs = some n) :
    n ≤ count + cs.length := by
  fun_induction commentLength? count cs with
  | case1 =>
    cases h
    simp
  | case2 count c cs _ ih =>
    have := ih h
    simp only [List.length_cons]
    omega
  | case3 => cases h

/-- A lexeme is no longer than the text. -/
theorem first_length_le (c : Char) (cs : List Char) : (first c cs).length ≤ (c :: cs).length := by
  have htake (p : Char → Bool) (cs : List Char) : (cs.takeWhile p).length ≤ cs.length :=
    (List.takeWhile_prefix p).length_le
  have htail {d : Char} (h : cs.head? = some d) : cs.tail.length + 1 = cs.length := by
    cases cs with
    | nil => cases h
    | cons => rfl
  unfold first
  simp only [List.length_cons]
  split
  · exact Nat.succ_le_succ (htake _ cs)
  split
  · rename_i h
    have := htail h.2
    have := htake (· != '\n') cs.tail
    simp only [lineComment]
    omega
  split
  · rename_i h
    have := htail h.2
    unfold blockComment
    split
    · simp only
      omega
    · rename_i hn
      have := commentLength?_le hn
      simp only
      omega
  split
  · unfold stringLiteral
    split
    · exact Nat.le_refl _
    · rename_i hn
      have := bodyLength?_le hn
      split <;> simp only <;> omega
  split
  · exact Nat.succ_le_succ (htake _ cs)
  split
  · exact Nat.succ_le_succ (htake _ cs)
  · unfold mark
    split
    · rename_i hf
      have hp := List.find?_some hf
      exact (List.isPrefixOf_iff_prefix.1 hp).length_le
    · exact Nat.succ_le_succ (Nat.zero_le _)

/-! ## Lexemes with more text behind them -/

theorem commentLength?_append {count n : Nat} {cs : List Char}
    (h : commentLength? count cs = some n) (more : List Char) :
    commentLength? count (cs ++ more) = some n := by
  fun_induction commentLength? count cs with
  | case1 => exact h
  | case2 count c cs hc ih =>
    rw [List.cons_append, commentLength?]
    · exact ih h
    · rintro rest rfl hrest
      cases cs with
      | nil => cases h
      | cons d cs => exact hc cs rfl (by rw [(List.cons_eq_cons.1 hrest).1])
  | case3 => cases h

theorem bodyLength?_append {count n : Nat} {cs : List Char} (h : bodyLength? count cs = some n)
    (more : List Char) : bodyLength? count (cs ++ more) = some n := by
  fun_induction bodyLength? count cs with
  | case1 => exact h
  | case2 count c cs ih => exact ih h
  | case3 count c cs hquote hescape ih =>
    rw [List.cons_append, bodyLength?]
    · exact ih h
    · exact hquote
    · rintro d rest rfl hrest
      cases cs with
      | nil => cases h
      | cons e cs => exact hescape e cs rfl rfl
  | case4 => cases h

theorem stringLiteral_append {cs : List Char} (h : (stringLiteral cs).sort.isSound)
    (more : List Char) : stringLiteral (cs ++ more) = stringLiteral cs := by
  unfold stringLiteral at *
  cases hn : bodyLength? 0 cs with
  | none => simp [hn, Sort.isSound] at h
  | some n =>
    have hlt := bodyLength?_le hn
    simp only [bodyLength?_append hn more, List.take_append_of_le_length (show n ≤ cs.length by omega)]

theorem blockComment_append {cs : List Char} (h : (blockComment cs).sort.isSound)
    (more : List Char) : blockComment (cs ++ more) = blockComment cs := by
  unfold blockComment at *
  cases hn : commentLength? 2 cs with
  | none => simp [hn, Sort.isSound] at h
  | some n => simp only [commentLength?_append hn more]

theorem prefix_append_cons {w : Char} {spelling : List Char} (h : w ∉ spelling)
    (cs more : List Char) : spelling <+: cs ++ w :: more ↔ spelling <+: cs := by
  induction cs generalizing spelling with
  | nil =>
    cases spelling with
    | nil => simp
    | cons d spelling =>
      have : d ≠ w := fun hd => h (hd ▸ List.mem_cons_self)
      simp [List.cons_prefix_cons, this]
  | cons c cs ih =>
    cases spelling with
    | nil => simp
    | cons d spelling =>
      rw [List.cons_append, List.cons_prefix_cons, List.cons_prefix_cons,
        ih fun hd => h (List.mem_cons_of_mem _ hd)]

/-- No punctuation mark has a blank in it. -/
theorem not_mem_marks {w : Char} (hw : Text.isBlank w) : ∀ m ∈ marks, w ∉ m.1 := by
  have h : (marks.any fun m => m.1.any Text.isBlank) = false := by decide +kernel
  intro m hm hmem
  exact List.any_eq_false.1 h m hm (List.any_eq_true.2 ⟨w, hmem, hw⟩)

theorem mark_congr {c : Char} {cs cs' : List Char}
    (h : ∀ m ∈ marks, m.1.isPrefixOf (c :: cs) = m.1.isPrefixOf (c :: cs')) :
    mark c cs = mark c cs' := by
  unfold mark
  rw [List.find?_congr h]

theorem mark_append_blank {w : Char} (hw : Text.isBlank w) (c : Char) (cs more : List Char) :
    mark c (cs ++ w :: more) = mark c cs := by
  refine mark_congr fun m hm => ?_
  rw [Bool.eq_iff_iff, List.isPrefixOf_iff_prefix, List.isPrefixOf_iff_prefix,
    ← List.cons_append, prefix_append_cons (not_mem_marks hw m hm)]

/-- A lexeme that is no error and no run of blanks stays the same before a blank, a line comment
before the end of its line. -/
theorem first_append_blank {c w : Char} {cs : List Char} (hw : Text.isBlank w)
    (hc : Text.isBlank c = false) (hs : (first c cs).sort.isSound)
    (hline : (first c cs).sort = .trivia .lineComment → w = '\n') (more : List Char) :
    first c (cs ++ w :: more) = first c cs := by
  have hslash := head?_append_blank hw (d := '/') (by decide) cs more
  have hstar := head?_append_blank hw (d := '*') (by decide) cs more
  unfold first at hs hline ⊢
  simp only [hc, Bool.false_eq_true, if_false, hslash, hstar] at hs hline ⊢
  by_cases hcomment : c = '/' ∧ cs.head? = some '/'
  · simp only [if_pos hcomment] at hline ⊢
    obtain rfl := hline rfl
    rw [tail_append_of_head? hcomment.2, lineComment, takeWhile_append_cons (by decide)]
    rfl
  simp only [if_neg hcomment] at hs ⊢
  by_cases hblock : c = '/' ∧ cs.head? = some '*'
  · simp only [if_pos hblock] at hs ⊢
    rw [tail_append_of_head? hblock.2, blockComment_append hs]
  simp only [if_neg hblock] at hs ⊢
  by_cases hquote : c = '"'
  · simp only [if_pos hquote] at hs ⊢
    exact stringLiteral_append hs _
  simp only [if_neg hquote]
  rw [takeWhile_append_cons (continuesName_blank hw), mark_append_blank hw,
    takeWhile_append_cons (continuesInteger_blank hw)]

end Lexeme

end Smaug
