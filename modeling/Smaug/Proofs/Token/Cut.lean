import Mathlib
import Smaug.Proofs.Token.File
import Smaug.Proofs.Token.Modes
import Smaug.Proofs.Token.Order
import Smaug.Proofs.Tree.Shift

/-! # The tokens of a piece of a source

Where a lexeme ends is told by the character after it at most, and that the text ends there tells
the same.  So the text from the start of a token to the end of another one has the tokens between
these, as if the source was no longer than that, and nothing else.
-/

namespace Smaug

/-! ## Text cut at a place between two characters -/

theorem Text.charsBefore?_append (count : Nat) (cs more : List Char) :
    charsBefore? count (size cs) (cs ++ more) = some (count + cs.length) := by
  induction cs generalizing count with
  | nil => rw [List.nil_append, size_nil, charsBefore?, List.length_nil, Nat.add_zero]
  | cons c cs ih =>
    have hpos := c.utf8Size_pos
    obtain ⟨n, hn⟩ : ∃ n, size (c :: cs) = n + 1 :=
      ⟨size (c :: cs) - 1, by rw [size_cons]; omega⟩
    rw [hn, List.cons_append, charsBefore?, ← hn, size_cons, if_pos (Nat.le_add_right _ _),
      Nat.add_sub_cancel_left, ih, List.length_cons]
    congr 1
    omega

theorem Text.cut?_append (cs more : List Char) : cut? (size cs) (cs ++ more) = some (cs, more) := by
  rw [cut?, charsBefore?_append, Nat.zero_add, Option.map_some, List.splitAt_eq, List.take_left,
    List.drop_left]

theorem Text.size_take_drop (start n : Nat) (cs : List Char) :
    start + size (cs.take n) + size (cs.drop n) = start + size cs := by
  rw [Nat.add_assoc, ← size_append, List.take_append_drop]

/-- What a span covers that ends and starts between two characters. -/
theorem Span.text?_append {source : String} {front text back : List Char}
    (h : source.toList = front ++ (text ++ back)) :
    Span.text? ⟨Text.size front, Text.size front + Text.size text⟩ source =
      some (String.ofList text) := by
  rw [Span.text?, if_pos (Nat.le_add_right _ _), h, Nat.add_sub_cancel_left, Text.cut?_append]
  simp [Text.cut?_append]

/-! ## Lexemes of a text that ends early -/

namespace Lexeme

def Sort.isSound : Lexeme.Sort → Bool
  | .trivia _ | .token .. => true
  | .malformed _ | .badEscape .. => false

theorem takeWhile_take {p : Char → Bool} {cs : List Char} {n : Nat}
    (h : (cs.takeWhile p).length ≤ n) : (cs.take n).takeWhile p = cs.takeWhile p := by
  induction cs generalizing n with
  | nil => simp
  | cons c cs ih =>
    cases hc : p c with
    | false => cases n <;> simp [hc]
    | true =>
      obtain ⟨n, rfl⟩ : ∃ m, n = m + 1 := ⟨n - 1, by simp [hc] at h; omega⟩
      simp only [List.take_succ_cons, List.takeWhile_cons, hc, if_true]
      rw [ih (by simpa [hc] using h)]

theorem commentLength?_take {count n m : Nat} {cs : List Char}
    (h : commentLength? count cs = some n) (hm : n ≤ count + m) :
    commentLength? count (cs.take m) = some n := by
  fun_induction commentLength? count cs generalizing m with
  | case1 count cs =>
    obtain rfl : count + 2 = n := by simpa using h
    obtain ⟨m, rfl⟩ : ∃ k, m = k + 2 := ⟨m - 2, by omega⟩
    rfl
  | case2 count c cs hc ih =>
    have := le_commentLength? h
    obtain ⟨m, rfl⟩ : ∃ k, m = k + 1 := ⟨m - 1, by omega⟩
    rw [List.take_succ_cons, commentLength?]
    · exact ih h (by omega)
    · rintro more rfl hslash
      cases cs with
      | nil => simp at hslash
      | cons d cs =>
        cases m with
        | zero => simp at hslash
        | succ m =>
          obtain ⟨rfl, -⟩ := List.cons_eq_cons.1 (List.take_succ_cons.symm.trans hslash)
          exact hc cs rfl rfl
  | case3 => cases h

theorem le_bodyLength? {count n : Nat} {cs : List Char} (h : bodyLength? count cs = some n) :
    count ≤ n := by
  fun_induction bodyLength? count cs with
  | case1 =>
    cases h
    exact Nat.le_refl _
  | case2 count c cs ih =>
    have := ih h
    omega
  | case3 count c cs _ _ ih =>
    have := ih h
    omega
  | case4 => cases h

theorem bodyLength?_take {count n m : Nat} {cs : List Char} (h : bodyLength? count cs = some n)
    (hm : n < count + m) : bodyLength? count (cs.take m) = some n := by
  fun_induction bodyLength? count cs generalizing m with
  | case1 count cs =>
    cases h
    obtain ⟨m, rfl⟩ : ∃ k, m = k + 1 := ⟨m - 1, by omega⟩
    rfl
  | case2 count c cs ih =>
    have := le_bodyLength? h
    obtain ⟨m, rfl⟩ : ∃ k, m = k + 2 := ⟨m - 2, by omega⟩
    rw [List.take_succ_cons, List.take_succ_cons, bodyLength?]
    exact ih h (by omega)
  | case3 count c cs hquote hescape ih =>
    have := le_bodyLength? h
    obtain ⟨m, rfl⟩ : ∃ k, m = k + 1 := ⟨m - 1, by omega⟩
    rw [List.take_succ_cons, bodyLength?]
    · exact ih h (by omega)
    · exact hquote
    · rintro d more rfl hmore
      cases cs with
      | nil => simp at hmore
      | cons d cs => exact hescape d cs rfl rfl
  | case4 => cases h

theorem stringLiteral_take {cs : List Char} {m : Nat} (h : (stringLiteral cs).sort.isSound)
    (hm : (stringLiteral cs).length ≤ m + 1) : stringLiteral (cs.take m) = stringLiteral cs := by
  unfold stringLiteral at *
  cases hn : bodyLength? 0 cs with
  | none => simp [hn, Sort.isSound] at h
  | some n =>
    simp only [hn] at h hm
    have hlt : n < m := by
      split at hm <;> simp only at hm <;> omega
    rw [bodyLength?_take hn (by omega)]
    simp only [List.take_take, Nat.min_eq_left (Nat.le_of_lt hlt)]

theorem two_le_blockComment (cs : List Char) : 2 ≤ (blockComment cs).length := by
  unfold blockComment
  split
  · exact Nat.le_add_left 2 _
  · rename_i h
    exact le_commentLength? h

theorem blockComment_take {cs : List Char} {m : Nat} (h : (blockComment cs).sort.isSound)
    (hm : (blockComment cs).length ≤ m + 2) : blockComment (cs.take m) = blockComment cs := by
  unfold blockComment at *
  cases hn : commentLength? 2 cs with
  | none => simp [hn, Sort.isSound] at h
  | some n =>
    simp only [hn] at hm
    rw [commentLength?_take hn (by omega)]

theorem lineComment_take {cs : List Char} {m : Nat} (hm : (lineComment cs).length ≤ m + 2) :
    lineComment (cs.take m) = lineComment cs := by
  unfold lineComment at *
  rw [takeWhile_take (by simpa using hm)]

theorem mark_of_find? {c : Char} {cs : List Char} {found : List Char × Token.Kind}
    (h : (marks.find? fun m => m.1.isPrefixOf (c :: cs)) = some found) :
    mark c cs = ⟨found.1.length, .token found.2 (String.ofList found.1)⟩ := by
  unfold mark
  rw [h]

theorem mark_take {c : Char} {cs : List Char} {m : Nat} (h : (mark c cs).sort.isSound)
    (hm : (mark c cs).length ≤ m + 1) : mark c (cs.take m) = mark c cs := by
  cases hf : marks.find? fun m => m.1.isPrefixOf (c :: cs) with
  | none =>
    unfold mark at h
    simp [hf, Sort.isSound] at h
  | some found =>
    rw [mark_of_find? hf] at hm ⊢
    obtain ⟨hp, before, after, hmarks, hb⟩ := List.find?_eq_some_iff_append.1 hf
    have htake (spelling : List Char) : spelling.isPrefixOf (c :: cs.take m) ↔
        spelling.isPrefixOf (c :: cs) ∧ spelling.length ≤ m + 1 := by
      rw [List.isPrefixOf_iff_prefix, List.isPrefixOf_iff_prefix, ← List.take_succ_cons,
        List.prefix_take_iff]
    refine mark_of_find? (List.find?_eq_some_iff_append.2
      ⟨(htake _).2 ⟨hp, hm⟩, before, after, hmarks, ?_⟩)
    intro other ho
    have := hb other ho
    simp only [Bool.not_eq_true'] at this ⊢
    exact Bool.eq_false_iff.2 fun h => Bool.eq_false_iff.1 this ((htake _).1 h).1

/-- A lexeme that is no error is the same in any part of the text that reaches as far. -/
theorem first_take {c : Char} {cs : List Char} {m : Nat} (h : (first c cs).sort.isSound)
    (hm : (first c cs).length ≤ m + 1) : first c (cs.take m) = first c cs := by
  have hhead {d : Char} (hm : 2 ≤ m + 1) (hd : cs.head? = some d) :
      (cs.take m).head? = some d := by
    rwa [List.head?_take, if_neg (by omega)]
  have hnone {d : Char} (hd : ¬(c = '/' ∧ cs.head? = some d)) :
      ¬(c = '/' ∧ (cs.take m).head? = some d) := by
    rw [List.head?_take]
    split
    · simp
    · exact hd
  have htail : (cs.take m).tail = cs.tail.take (m - 1) := List.tail_take_eq_take_tail _ _
  unfold first at h hm ⊢
  by_cases hblank : Text.isBlank c
  · simp only [if_pos hblank] at hm ⊢
    rw [takeWhile_take (by simpa using hm)]
  simp only [if_neg hblank] at h hm ⊢
  by_cases hline : c = '/' ∧ cs.head? = some '/'
  · simp only [if_pos hline] at hm
    have hle : 2 ≤ m + 1 := Nat.le_trans (by simp [lineComment]) hm
    rw [if_pos hline, if_pos ⟨hline.1, hhead hle hline.2⟩, htail, lineComment_take (by omega)]
  simp only [if_neg hline, if_neg (hnone hline)] at h hm ⊢
  by_cases hblock : c = '/' ∧ cs.head? = some '*'
  · simp only [if_pos hblock] at h hm
    have hle : 2 ≤ m + 1 := Nat.le_trans (two_le_blockComment _) hm
    rw [if_pos hblock, if_pos ⟨hblock.1, hhead hle hblock.2⟩, htail,
      blockComment_take h (by omega)]
  simp only [if_neg hblock, if_neg (hnone hblock)] at h hm ⊢
  by_cases hquote : c = '"'
  · simp only [if_pos hquote] at h hm ⊢
    exact stringLiteral_take h hm
  simp only [if_neg hquote] at h hm ⊢
  by_cases hname : startsName c
  · simp only [if_pos hname] at hm ⊢
    rw [takeWhile_take (by simpa using hm)]
  simp only [if_neg hname] at h hm ⊢
  by_cases hdigit : c.isDigit
  · simp only [if_pos hdigit] at hm ⊢
    rw [takeWhile_take (by simpa using hm)]
  simp only [if_neg hdigit] at h hm ⊢
  exact mark_take h hm

theorem marks_ne_eof : ∀ m ∈ marks, m.2 ≠ .eof := by decide

theorem ofWord_ne_eof (word : String) : Token.Kind.ofWord word ≠ .eof := by
  unfold Token.Kind.ofWord
  split
  · rename_i kind h
    rintro rfl
    exact absurd (List.mem_of_find?_eq_some h) (by decide)
  · split <;> decide

/-- No lexeme ends the input. -/
theorem first_ne_eof {c : Char} {cs : List Char} {kind : Token.Kind} {value : String}
    (h : (first c cs).sort = .token kind value) : kind ≠ .eof := by
  unfold first at h
  split at h
  · cases h
  split at h
  · cases h
  split at h
  · unfold blockComment at h
    split at h <;> cases h
  split at h
  · unfold stringLiteral at h
    split at h
    · cases h
    · split at h <;> cases h
      decide
  split at h
  · cases h
    exact ofWord_ne_eof _
  split at h
  · cases h
    decide
  · unfold mark at h
    split at h
    · rename_i spelling found hf
      cases h
      exact marks_ne_eof _ (List.mem_of_find?_eq_some hf)
    · cases h

end Lexeme

/-! ## Reading without an error -/

/-- A text is read from an offset on to tokens, without an error. -/
inductive Lexed : Nat → List Char → List Token → Prop
  | nil : Lexed offset [] [.endAt (.emptyAt offset)]
  | trivia (h : (Lexeme.first c cs).sort = .trivia kind)
      (hr : Lexed (offset + Text.size ((c :: cs).take (Lexeme.first c cs).length))
        ((c :: cs).drop (Lexeme.first c cs).length) tokens) :
      Lexed offset (c :: cs) tokens
  | token (h : (Lexeme.first c cs).sort = .token kind value)
      (hr : Lexed (offset + Text.size ((c :: cs).take (Lexeme.first c cs).length))
        ((c :: cs).drop (Lexeme.first c cs).length) tokens) :
      Lexed offset (c :: cs)
        (⟨kind, value,
          ⟨offset, offset + Text.size ((c :: cs).take (Lexeme.first c cs).length)⟩⟩ :: tokens)

namespace Lexed

variable {offset : Nat} {cs : List Char} {before piece rest tokens : List Token} {token : Token}

/-- Text can be left out up to a token. -/
theorem skip (h : Lexed offset cs (before ++ token :: tokens)) (hk : token.kind ≠ .eof) :
    ∃ front back, cs = front ++ back ∧ token.span.start = offset + Text.size front ∧
      Lexed token.span.start back (token :: tokens) := by
  generalize hall : before ++ token :: tokens = all at h
  induction h generalizing before with
  | nil =>
    cases before with
    | nil =>
      obtain ⟨rfl, -⟩ := List.cons_eq_cons.1 hall
      exact absurd rfl hk
    | cons => simp at hall
  | @trivia c cs _ offset all h hr ih =>
    obtain ⟨front, back, hcs, hstart, hl⟩ := ih hall
    refine ⟨(c :: cs).take (Lexeme.first c cs).length ++ front, back, ?_, ?_, hl⟩
    · rw [List.append_assoc, ← hcs, List.take_append_drop]
    · rw [hstart, Text.size_append, Nat.add_assoc]
  | @token c cs _ _ offset all h hr ih =>
    cases before with
    | nil =>
      obtain ⟨rfl, rfl⟩ := List.cons_eq_cons.1 hall
      exact ⟨[], c :: cs, rfl, rfl, .token h hr⟩
    | cons first before =>
      obtain ⟨front, back, hcs, hstart, hl⟩ := ih (List.cons_eq_cons.1 hall).2
      refine ⟨(c :: cs).take (Lexeme.first c cs).length ++ front, back, ?_, ?_, hl⟩
      · rw [List.append_assoc, ← hcs, List.take_append_drop]
      · rw [hstart, Text.size_append, Nat.add_assoc]

/-- The last token is the end of the text. -/
theorem getLast? (h : Lexed offset cs tokens) :
    tokens.getLast? = some (.endAt (.emptyAt (offset + Text.size cs))) := by
  induction h with
  | nil => rfl
  | @trivia c cs _ offset tokens _ _ ih =>
    rw [ih, Text.size_take_drop]
  | @token c cs _ _ offset tokens _ hr ih =>
    rw [List.getLast?_cons, ih, Text.size_take_drop]
    rfl

/-- Every token lies within the text. -/
theorem span_le (h : Lexed offset cs tokens) :
    ∀ token ∈ tokens, token.span.start ≤ token.span.stop ∧
      token.span.stop ≤ offset + Text.size cs := by
  induction h with
  | nil => exact List.forall_mem_singleton.2 ⟨Nat.le_refl _, Nat.le_refl _⟩
  | @trivia c cs _ offset tokens _ _ ih =>
    rwa [Text.size_take_drop] at ih
  | @token c cs _ _ offset tokens _ _ ih =>
    have hsize := Text.size_take_drop offset (Lexeme.first c cs).length (c :: cs)
    rw [hsize] at ih
    exact List.forall_mem_cons.2
      ⟨⟨Nat.le_add_right _ _, (Nat.le_add_right _ _).trans hsize.le⟩, ih⟩

/-- The first lexeme stays the same where the text after it is cut off. -/
theorem part {c : Char} {cs front back : List Char} (h : (Lexeme.first c cs).sort.isSound)
    (hd : (c :: cs).drop (Lexeme.first c cs).length = front ++ back) :
    ∃ more, c :: cs = c :: more ++ back ∧ Lexeme.first c more = Lexeme.first c cs ∧
      (c :: more).take (Lexeme.first c cs).length = (c :: cs).take (Lexeme.first c cs).length ∧
      (c :: more).drop (Lexeme.first c cs).length = front ∧
      Text.size (c :: more) =
        Text.size ((c :: cs).take (Lexeme.first c cs).length) + Text.size front := by
  obtain ⟨n, hn⟩ := Nat.exists_eq_add_one_of_ne_zero (Nat.ne_zero_of_lt (Lexeme.first_length_pos c cs))
  have hd' : cs.drop n = front ++ back := by rwa [hn] at hd
  have htake : (c :: cs.take (n + front.length)).take (Lexeme.first c cs).length =
      (c :: cs).take (Lexeme.first c cs).length := by
    rw [hn, List.take_succ_cons, List.take_succ_cons, List.take_take, Nat.min_eq_left (by omega)]
  have hdrop : (c :: cs.take (n + front.length)).drop (Lexeme.first c cs).length = front := by
    rw [hn, List.drop_succ_cons, List.drop_take, hd', Nat.add_sub_cancel_left, List.take_left]
  refine ⟨cs.take (n + front.length), ?_, Lexeme.first_take h (by omega), htake, hdrop, ?_⟩
  · rw [List.take_add, hd', List.take_left, List.cons_append, List.append_assoc, ← hd',
      List.take_append_drop]
  · have hsize := congrArg Text.size
      (List.take_append_drop (Lexeme.first c cs).length (c :: cs.take (n + front.length)))
    rw [Text.size_append, htake, hdrop] at hsize
    exact hsize.symm

/-- The text begins with a text that has some tokens by itself, only `shift` bytes before. -/
inductive Begins (offset shift : Nat) (cs : List Char) (piece : List Token) : Prop
  | intro {front back : List Char} {alone : List Token} (hc : cs = front ++ back)
      (hp : piece = alone.map (Token.shift shift))
      (hs : stopAfter (offset + shift) piece = offset + Text.size front + shift)
      (hl : Lexed offset front (alone ++ [.endAt (.emptyAt (offset + Text.size front))]))

theorem Begins.nil (offset shift : Nat) (cs : List Char) : Begins offset shift cs [] :=
  .intro (List.nil_append cs).symm (List.map_nil).symm rfl .nil

theorem stopAfter_cons_eq (start start' : Nat) (token : Token) (tokens : List Token) :
    stopAfter start (token :: tokens) = stopAfter start' (token :: tokens) := by
  rw [stopAfter_cons, stopAfter_cons]

/-- Text can end after a token. -/
theorem begins {shift : Nat} (h : Lexed (offset + shift) cs (piece ++ rest))
    (hk : ∀ token ∈ piece, token.kind ≠ .eof) : Begins offset shift cs piece := by
  generalize hall : piece ++ rest = all at h
  generalize hstart : offset + shift = start at h
  induction h generalizing piece offset with
  | nil =>
    cases piece with
    | nil => exact .nil offset shift []
    | cons first piece =>
      obtain ⟨rfl, -⟩ := List.cons_eq_cons.1 hall
      exact absurd rfl (hk _ List.mem_cons_self)
  | @trivia c cs kind start all h hr ih =>
    cases piece with
    | nil => exact .nil offset shift (c :: cs)
    | cons first piece =>
      obtain @⟨front, back, alone, hd, hp, hs, hl⟩ := ih hk hall
        (show offset + Text.size ((c :: cs).take (Lexeme.first c cs).length) + shift = _ by omega)
      obtain ⟨more, hc, hfirst, ht, hdrop, hsize⟩ := part (by rw [h]; rfl) hd
      have hend : offset + Text.size ((c :: cs).take (Lexeme.first c cs).length) +
          Text.size front = offset + Text.size (c :: more) := by rw [hsize, Nat.add_assoc]
      rw [hend] at hs hl
      refine .intro hc hp ((stopAfter_cons_eq _ _ _ _).trans hs) (.trivia (hfirst ▸ h) ?_)
      rwa [hfirst, ht, hdrop]
  | @token c cs kind value start all h hr ih =>
    cases piece with
    | nil => exact .nil offset shift (c :: cs)
    | cons first piece =>
      obtain ⟨rfl, hrest⟩ := List.cons_eq_cons.1 hall
      obtain @⟨front, back, alone, hd, hp, hs, hl⟩ := ih (List.forall_mem_cons.1 hk).2 hrest
        (show offset + Text.size ((c :: cs).take (Lexeme.first c cs).length) + shift = _ by omega)
      obtain ⟨more, hc, hfirst, ht, hdrop, hsize⟩ := part (by rw [h]; rfl) hd
      have hend : offset + Text.size ((c :: cs).take (Lexeme.first c cs).length) +
          Text.size front = offset + Text.size (c :: more) := by rw [hsize, Nat.add_assoc]
      rw [hend] at hs hl
      have hstop : offset + Text.size ((c :: cs).take (Lexeme.first c cs).length) + shift =
          start + Text.size ((c :: cs).take (Lexeme.first c cs).length) := by omega
      have htoken : Lexed offset (c :: more) (_ :: (alone ++ _)) :=
        .token (hfirst ▸ h) (by rwa [hfirst, ht, hdrop])
      rw [hfirst, ht, ← List.cons_append] at htoken
      refine .intro hc ?_ ?_ htoken
      · rw [List.map_cons, ← hp, Token.shift, Span.shift, hstart, hstop]
      · rw [stopAfter_cons, ← hs, hstop]

end Lexed

namespace Reader

/-- What a reader yields next is the next token of the text. -/
theorem next_lexed {reader after : Reader} {token : Token} {size : Nat}
    (hs : size ≤ Span.maxOffset) (hw : reader.Within size) (hf : reader.finished = false)
    (h : reader.next = (.token token, after)) :
    after.finished ∧ Lexed reader.offset reader.ahead [token] ∨
      after.finished = false ∧ token.kind ≠ .eof ∧ ∀ tokens,
        Lexed after.offset after.ahead tokens →
          Lexed reader.offset reader.ahead (token :: tokens) := by
  fun_induction next reader with
  | case1 reader ha =>
    cases h
    rw [ha, Span.wrap_of_le (Nat.le_refl _) (Nat.le_trans hw.offset_le hs)]
    exact .inl ⟨rfl, .nil⟩
  | case2 reader c cs hc hp lexeme passed span kind hk ih =>
    have hwp := hw.pass lexeme.length
    have ho : passed.offset = reader.offset + Text.size ((c :: cs).take lexeme.length) := by
      rw [← hc]
      rfl
    have ha : passed.ahead = (c :: cs).drop lexeme.length := by
      rw [← hc]
      rfl
    have htrivia {tokens : List Token} (h : Lexed passed.offset passed.ahead tokens) :
        Lexed reader.offset reader.ahead tokens := by
      rw [ho, ha] at h
      rw [hc]
      exact .trivia hk h
    rcases ih ⟨hwp.placed, hwp.total⟩ hf h with ⟨hf, hl⟩ | ⟨hf, hk, hl⟩
    · exact .inl ⟨hf, htrivia hl⟩
    · exact .inr ⟨hf, hk, fun tokens ht => htrivia (hl tokens ht)⟩
  | case3 reader c cs hc hp lexeme passed span kind value hk =>
    obtain ⟨hr, rfl⟩ := Prod.mk.inj h
    cases hr
    have hwp : passed.Within size := hw.pass lexeme.length
    have ho : passed.offset = reader.offset + Text.size ((c :: cs).take lexeme.length) := by
      rw [← hc]
      rfl
    have ha : passed.ahead = (c :: cs).drop lexeme.length := by
      rw [← hc]
      rfl
    have hspan : span = ⟨reader.offset, passed.offset⟩ :=
      Span.wrap_of_le (by omega) (Nat.le_trans hwp.offset_le hs)
    refine .inr ⟨hf, Lexeme.first_ne_eof hk, fun tokens ht => ?_⟩
    rw [hspan, hc, ho]
    rw [ho, ha] at ht
    exact .token hk ht
  | case4 => cases h
  | case5 => cases h
  | case6 reader c cs hc hp => exact absurd hw.placed hp

/-- Two readers that yield the same next yield the same from there on. -/
theorem drainOnto_eq {readings : Array Reading} {reader reader' : Reader}
    (h : reader.next = reader'.next) (hf : ¬reader.finished) (hf' : ¬reader'.finished) :
    reader.drainOnto readings = reader'.drainOnto readings := by
  cases hn : reader'.next with
  | mk reading after => rw [drainOnto_next hf (h.trans hn), drainOnto_next hf' hn]

/-- A reader yields the tokens of its text. -/
theorem drainOnto_lexed {offset : Nat} {cs : List Char} {tokens : List Token}
    (h : Lexed offset cs tokens) (hs : offset + Text.size cs ≤ Span.maxOffset) {reader : Reader}
    (ho : reader.offset = offset) (ha : reader.ahead = cs) (hp : reader.isPlaced)
    (hf : ¬reader.finished) (readings : Array Reading) :
    (reader.drainOnto readings).1.toList = readings.toList ++ tokens.map .token := by
  have hsize {offset n : Nat} {cs : List Char} (hs : offset + Text.size cs ≤ Span.maxOffset) :
      offset + Text.size (cs.take n) + Text.size (cs.drop n) ≤ Span.maxOffset := by
    rwa [Text.size_take_drop]
  induction h generalizing reader readings with
  | nil =>
    rw [drainOnto_next hf (next_nil ha), if_pos (.inr rfl), ho,
      Span.wrap_of_le (Nat.le_refl _) (by simpa using hs)]
    simp [Span.emptyAt]
  | trivia h hr ih =>
    have hnext := next_cons ha hp
    simp only [h] at hnext
    rw [drainOnto_eq hnext hf hf]
    apply ih (hsize hs)
    · rw [← ha, ← ho]
      rfl
    · rw [← ha]
      rfl
    · exact hp
    · exact hf
  | @token c cs _ _ offset _ h hr ih =>
    have hnext := next_cons ha hp
    simp only [h] at hnext
    have hpass : (reader.pass (Lexeme.first c cs).length).offset =
        offset + Text.size ((c :: cs).take (Lexeme.first c cs).length) := by
      rw [← ha, ← ho]
      rfl
    have hs := hsize (n := (Lexeme.first c cs).length) hs
    rw [hpass, ho, Span.wrap_of_le (Nat.le_add_right _ _) (by omega)] at hnext
    rw [drainOnto_next hf hnext, if_neg (by simpa [pass] using hf),
      ih hs hpass (by rw [← ha]; rfl) hp hf, Array.toList_push, List.append_assoc]
    rfl

end Reader

namespace Tokens

theorem collect_token {options : Options} {file : String} {tokens : Array Token}
    {errors : Array Error} {token : Token} {readings : List Reading} {all : List Token}
    (hk : token.kind ≠ .eof)
    (h : collect options file tokens errors (.token token :: readings) = .ok all) :
    collect options file (tokens.push token) errors readings = .ok all := by
  rw [collect, if_neg hk] at h
  split at h
  · split at h
    · cases h
    · exact h
  · exact h

/-- Where a source is read without an error, its tokens are those of its text. -/
theorem drainOnto_collect (readings : Array Reading)
    {reader : Reader} {size : Nat} (hs : size ≤ Span.maxOffset) (hw : reader.Within size)
    (hf : reader.finished = false) :
    ∃ more, (reader.drainOnto readings).1.toList = readings.toList ++ more ∧
      ∀ options file tokens errors all, collect options file tokens errors more = .ok all →
        ∃ lexed, all = tokens.toList ++ lexed ∧ Lexed reader.offset reader.ahead lexed := by
  fun_induction Reader.drainOnto readings reader with
  | case1 readings reader hfin => simp [hf] at hfin
  | case2 readings reader hfin reading after hn readings' hd =>
    obtain ⟨hwa, hy⟩ := Reader.next_yields hs hw hf hn
    refine ⟨[reading], by simp [readings'], fun options file tokens errors all h => ?_⟩
    cases hy with
    | token _ _ _ hf => simp [hf] at hd
    | error _ hf => simp [hf] at hd
    | endOfInput _ hfa =>
      rcases Reader.next_lexed hs hw hf hn with ⟨-, hl⟩ | ⟨-, hk, -⟩
      · exact ⟨_, finish_ok h, hl⟩
      · exact absurd rfl hk
  | case3 readings reader hfin reading after hn readings' hd ih =>
    obtain ⟨hwa, hy⟩ := Reader.next_yields hs hw hf hn
    have hfa : after.finished = false := by simpa using (not_or.1 hd).2
    obtain ⟨more, hm, hr⟩ := ih hwa hfa
    refine ⟨reading :: more, by simp [hm, readings'], fun options file tokens errors all h => ?_⟩
    cases hy with
    | @token token =>
      rcases Reader.next_lexed hs hw hf hn with ⟨hf, -⟩ | ⟨-, hk, hl⟩
      · simp [hf] at hfa
      · obtain ⟨lexed, hall, hlexed⟩ := hr options file _ errors all (collect_token hk h)
        exact ⟨token :: lexed, by simp [hall], hl lexed hlexed⟩
    | @error error =>
      rw [collect] at h
      split at h
      · cases h
      · have he : (errors.push error).isEmpty = false := by simp
        obtain ⟨_, hm⟩ := collect_errors he more
        cases h.symm.trans hm
    | endOfInput _ hf => simp [hf] at hfa

theorem ofSource_size {source file : String} {options : Options} {tokens : Tokens}
    (h : ofSource source file options = .ok tokens) : source.utf8ByteSize ≤ Span.maxOffset := by
  unfold ofSource at h
  split at h
  · cases h
  · rename_i hb
    exact Nat.le_trans (Nat.le_of_not_lt hb) (Nat.min_le_right _ _)

/-- The tokens of a source are those of its text. -/
theorem ofSource_lexed {source file : String} {options : Options} {tokens : Tokens}
    (h : ofSource source file options = .ok tokens) : Lexed 0 source.toList tokens.tokens := by
  have hs := ofSource_size h
  unfold ofSource at h
  split at h
  · cases h
  · have hread := Reader.ofSource_within source file
    obtain ⟨readings, hr, hc⟩ := drainOnto_collect #[] hs hread rfl
    simp only [Reader.drain, hr] at h
    cases hall : collect options file #[] #[] readings with
    | error errors => simp [hall, Except.map] at h
    | ok all =>
      simp only [List.nil_append, hall, Except.map, Except.ok.injEq] at h
      subst h
      obtain ⟨lexed, hl, h⟩ := hc options file #[] #[] all hall
      rw [hl]
      exact h

theorem collect_lexed {offset : Nat} {cs : List Char} {lexed : List Token}
    (h : Lexed offset cs lexed) (file : String) (tokens : Array Token) :
    collect {} file tokens #[] (lexed.map .token) = .ok (tokens.toList ++ lexed) := by
  induction h generalizing tokens with
  | nil => simp [collect, Token.endAt, collect.finish]
  | trivia _ _ ih => exact ih tokens
  | token h _ ih =>
    rw [List.map_cons, collect, if_neg (Lexeme.first_ne_eof h)]
    simpa using ih (tokens.push _)

/-- Text that is read without an error has its tokens. -/
theorem ofSource_of_lexed {text : String} {lexed : List Token} (h : Lexed 0 text.toList lexed)
    (hs : text.utf8ByteSize ≤ Span.maxOffset) (file : String) :
    ∃ trivia, ofSource text file {} = .ok ⟨lexed, trivia⟩ := by
  have hlimit : Options.byteLimit {} = Span.maxOffset := Nat.min_self _
  have hread := Reader.drainOnto_lexed h (by rwa [Nat.zero_add, Text.size_toList])
    (show (Reader.ofSource text file).offset = 0 from rfl) rfl rfl Bool.false_ne_true #[]
  unfold ofSource
  rw [hlimit, if_neg (Nat.not_lt_of_le hs)]
  simp only [Reader.drain, hread, List.nil_append, collect_lexed h]
  exact ⟨_, rfl⟩

/-- The text under some tokens of a source has these tokens by itself, only earlier by as many
bytes as it is cut off from the start of the source. -/
theorem ofSource_piece {source file : String} {options : Options} {tokens : Tokens}
    {before piece rest : List Token} {first : Token}
    (h : ofSource source file options = .ok tokens)
    (ht : tokens.tokens = before ++ (piece ++ rest)) (hf : piece.head? = some first)
    (hk : ∀ token ∈ piece, token.kind ≠ .eof) :
    ∃ text alone stop,
      Span.text? ⟨first.span.start, stopAfter 0 piece⟩ source = some text ∧
        piece = alone.map (Token.shift first.span.start) ∧ stop.kind = .eof ∧
        ∀ file, ∃ trivia, ofSource text file {} = .ok ⟨alone ++ [stop], trivia⟩ := by
  obtain ⟨piece, rfl⟩ := List.head?_eq_some_iff.1 hf
  have hl := ofSource_lexed h
  rw [ht, List.cons_append] at hl
  obtain ⟨front, back, hsource, hstart, hl⟩ := hl.skip (List.forall_mem_cons.1 hk).1
  have hback : Lexed (0 + first.span.start) back (first :: piece ++ rest) := by rwa [Nat.zero_add]
  obtain @⟨text, after, alone, hback, hp, hstop, hl⟩ := hback.begins hk
  rw [hback] at hsource
  refine ⟨String.ofList text, alone, .endAt (.emptyAt (0 + Text.size text)), ?_, hp, rfl,
    fun file => ?_⟩
  · rw [Lexed.stopAfter_cons_eq 0 (0 + first.span.start), hstop, hstart, Nat.zero_add, Nat.zero_add,
      Nat.add_comm, Span.text?_append hsource]
  · refine ofSource_of_lexed (by rwa [String.toList_ofList]) ?_ file
    have hsize := ofSource_size h
    rw [← Text.size_toList, hsource, Text.size_append, Text.size_append] at hsize
    rw [← Text.size_toList, String.toList_ofList]
    omega

end Tokens

end Smaug
