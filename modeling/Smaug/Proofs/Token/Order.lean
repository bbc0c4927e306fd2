import Smaug.Token.Tokens

/-! # Tokens in order

A reader moves through the source from one end to the other, and what it yields lies between where
it stood and where it then stands.  So the tokens of a source lie one behind the other, none of them
empty but the last, which ends the input.
-/

namespace Smaug

theorem Text.size_toList (source : String) : Text.size source.toList = source.utf8ByteSize := by
  have h (cs : List Char) : (String.ofList cs).utf8ByteSize = Text.size cs := by
    induction cs with
    | nil => rfl
    | cons c cs ih =>
      rw [String.ofList_cons, String.utf8ByteSize_append, String.utf8ByteSize_singleton, ih,
        Text.size_cons]
  rw [← h, String.ofList_toList]

theorem Text.size_pos {cs : List Char} (h : cs ≠ []) : 0 < Text.size cs := by
  cases cs with
  | nil => exact absurd rfl h
  | cons c cs =>
    rw [Text.size_cons]
    have := c.utf8Size_pos
    omega

theorem Span.wrap_of_le {start stop : Nat} (h : start ≤ stop) (hm : stop ≤ maxOffset) :
    wrap start stop = ⟨start, stop⟩ := by
  unfold wrap
  rw [Nat.mod_eq_of_lt (by omega), Nat.mod_eq_of_lt (by omega)]

namespace Reader

structure Within (reader : Reader) (size : Nat) : Prop where
  placed : reader.isPlaced
  total : reader.offset + Text.size reader.ahead = size

theorem ofSource_within (source file : String) :
    (ofSource source file).Within source.utf8ByteSize where
  placed := rfl
  total := by simp [ofSource, Text.size_toList]

theorem Within.pass {reader : Reader} {size : Nat} (h : reader.Within size) (n : Nat) :
    (reader.pass n).Within size where
  placed := h.placed
  total := by
    rw [← h.total, ← List.take_append_drop n reader.ahead, Text.size_append]
    simp only [Reader.pass]
    omega

theorem offset_pass_lt {reader : Reader} {n : Nat} (hn : 0 < n) (h : reader.ahead ≠ []) :
    reader.offset < (reader.pass n).offset := by
  have : 0 < Text.size (reader.ahead.take n) := by
    apply Text.size_pos
    simp [h, Nat.ne_of_gt hn]
  simp only [pass]
  omega

theorem Within.offset_le {reader : Reader} {size : Nat} (h : reader.Within size) :
    reader.offset ≤ size := by
  have := h.total
  omega

/-- What a reader yields that stood at `start`, and stands at `after` then. -/
inductive Yields (start : Nat) (after : Reader) : Reading → Prop
  | token (hl : start ≤ token.span.start) (hs : token.span.start < token.span.stop)
      (ha : token.span.stop = after.offset) (hf : after.finished = false) :
      Yields start after (.token token)
  | error (hl : start ≤ after.offset) (hf : after.finished = false) :
      Yields start after (.error error)
  | endOfInput (hl : start ≤ after.offset) (hf : after.finished) :
      Yields start after (.token (.endAt (.emptyAt after.offset)))

theorem Yields.mono {start start' : Nat} {after : Reader} {reading : Reading} (h : start' ≤ start)
    (hy : Yields start after reading) : Yields start' after reading := by
  cases hy with
  | token hl hs ha hf => exact .token (Nat.le_trans h hl) hs ha hf
  | error hl hf => exact .error (Nat.le_trans h hl) hf
  | endOfInput hl hf => exact .endOfInput (Nat.le_trans h hl) hf

/-- One reading stays within the source and lies ahead of where it began. -/
theorem next_yields {reader after : Reader} {reading : Reading} {size : Nat}
    (hs : size ≤ Span.maxOffset) (hw : reader.Within size) (hf : reader.finished = false)
    (h : reader.next = (reading, after)) :
    after.Within size ∧ Yields reader.offset after reading := by
  fun_induction next reader with
  | case1 reader ha =>
    cases h
    rw [Span.wrap_of_le (Nat.le_refl _) (Nat.le_trans hw.offset_le hs)]
    exact ⟨⟨hw.placed, hw.total⟩, .endOfInput (Nat.le_refl _) rfl⟩
  | case2 reader c cs hc hp lexeme passed span kind _ ih =>
    have hlt : reader.offset < passed.offset :=
      offset_pass_lt (Lexeme.first_length_pos c cs) (by simp [hc])
    have hwp := hw.pass lexeme.length
    obtain ⟨hwa, hy⟩ := ih ⟨hwp.placed, hwp.total⟩ hf h
    exact ⟨hwa, hy.mono (Nat.le_of_lt hlt)⟩
  | case3 reader c cs hc hp lexeme passed span kind value _ =>
    obtain ⟨rfl, rfl⟩ := Prod.mk.inj h
    have hlt : reader.offset < passed.offset :=
      offset_pass_lt (Lexeme.first_length_pos c cs) (by simp [hc])
    have hwp : passed.Within size := hw.pass lexeme.length
    have hspan : span = ⟨reader.offset, passed.offset⟩ :=
      Span.wrap_of_le (Nat.le_of_lt hlt) (Nat.le_trans hwp.offset_le hs)
    rw [hspan]
    exact ⟨hwp, .token (Nat.le_refl _) hlt rfl hf⟩
  | case4 reader c cs hc hp lexeme passed span cause _ =>
    obtain ⟨rfl, rfl⟩ := Prod.mk.inj h
    have hlt : reader.offset < passed.offset :=
      offset_pass_lt (Lexeme.first_length_pos c cs) (by simp [hc])
    exact ⟨hw.pass lexeme.length, .error (Nat.le_of_lt hlt) hf⟩
  | case5 reader c cs hc hp lexeme passed escape before _ start =>
    obtain ⟨rfl, rfl⟩ := Prod.mk.inj h
    have hlt : reader.offset < passed.offset :=
      offset_pass_lt (Lexeme.first_length_pos c cs) (by simp [hc])
    exact ⟨hw.pass lexeme.length, .error (Nat.le_of_lt hlt) hf⟩
  | case6 reader c cs hc hp => exact absurd hw.placed hp

end Reader

def stopAfter (start : Nat) (passed : List Token) : Nat :=
  (passed.getLast?.map (·.span.stop)).getD start

theorem stopAfter_append (start : Nat) (ts us : List Token) :
    stopAfter start (ts ++ us) = stopAfter (stopAfter start ts) us := by
  unfold stopAfter
  rw [List.getLast?_append]
  cases us.getLast? <;> simp

theorem stopAfter_cons (start : Nat) (token : Token) (tokens : List Token) :
    stopAfter start (token :: tokens) = stopAfter token.span.stop tokens :=
  stopAfter_append start [token] tokens

/-- Tokens one behind the other from `start` on, none of them empty but the last, which ends the
input. -/
inductive InOrder : Nat → List Token → Prop
  | last (hk : token.kind = .eof) (hl : start ≤ token.span.start) : InOrder start [token]
  | cons (hk : token.kind ≠ .eof) (hl : start ≤ token.span.start)
      (hs : token.span.start < token.span.stop) (ht : InOrder token.span.stop tokens) :
      InOrder start (token :: tokens)

theorem InOrder.mono {start start' : Nat} {tokens : List Token} (h : start' ≤ start)
    (ht : InOrder start tokens) : InOrder start' tokens := by
  cases ht with
  | last hk hl => exact .last hk (Nat.le_trans h hl)
  | cons hk hl hs ht => exact .cons hk (Nat.le_trans h hl) hs ht

namespace InOrder

variable {start : Nat} {token : Token} {before tokens after : List Token}

theorem le_of_mem (h : InOrder start tokens) (ht : token ∈ tokens) : start ≤ token.span.start := by
  induction h with
  | last _ hl =>
    rw [List.mem_singleton.1 ht]
    exact hl
  | cons _ hl hs _ ih =>
    rcases List.mem_cons.1 ht with rfl | ht
    · exact hl
    · have := ih ht
      omega

theorem start_lt_stop (h : InOrder start tokens) (ht : token ∈ tokens) (hk : token.kind ≠ .eof) :
    token.span.start < token.span.stop := by
  induction h with
  | last hl =>
    rw [List.mem_singleton.1 ht] at hk
    exact absurd hl hk
  | cons _ _ hs _ ih =>
    rcases List.mem_cons.1 ht with rfl | ht
    · exact hs
    · exact ih ht

theorem cons_cases (h : InOrder start (token :: tokens)) :
    token.kind = .eof ∧ tokens = [] ∨
      start ≤ token.span.start ∧ token.span.start < token.span.stop ∧
        InOrder token.span.stop tokens := by
  cases h with
  | last hk => exact .inl ⟨hk, rfl⟩
  | cons _ hl hs ht => exact .inr ⟨hl, hs, ht⟩

/-- Of two tokens at different places, the first is not empty and ends before the second. -/
theorem lt_of_lt (h : InOrder start tokens) {i j : Nat} {a b : Token} (hij : i < j)
    (ha : tokens[i]? = some a) (hb : tokens[j]? = some b) :
    a.span.start < a.span.stop ∧ a.span.stop ≤ b.span.start := by
  induction h generalizing i j with
  | last =>
    obtain ⟨j, rfl⟩ := Nat.exists_eq_add_one_of_ne_zero (Nat.ne_zero_of_lt hij)
    cases hb
  | cons _ _ hs ht ih =>
    obtain ⟨j, rfl⟩ := Nat.exists_eq_add_one_of_ne_zero (Nat.ne_zero_of_lt hij)
    cases i with
    | zero =>
      cases ha
      exact ⟨hs, ht.le_of_mem (List.mem_of_getElem? hb)⟩
    | succ i => exact ih (Nat.lt_of_succ_lt_succ hij) ha hb

theorem start_le_of_le (h : InOrder start tokens) {i j : Nat} {a b : Token} (hij : i ≤ j)
    (ha : tokens[i]? = some a) (hb : tokens[j]? = some b) : a.span.start ≤ b.span.start := by
  rcases Nat.eq_or_lt_of_le hij with rfl | hij
  · cases ha.symm.trans hb
    exact Nat.le_refl _
  · have := h.lt_of_lt hij ha hb
    omega

theorem stop_le_of_le (h : InOrder start tokens) {i j : Nat} {a b : Token} (hij : i ≤ j)
    (ha : tokens[i]? = some a) (hb : tokens[j]? = some b) (hs : b.span.start < b.span.stop) :
    a.span.stop ≤ b.span.stop := by
  rcases Nat.eq_or_lt_of_le hij with rfl | hij
  · cases ha.symm.trans hb
    exact Nat.le_refl _
  · have := h.lt_of_lt hij ha hb
    omega

/-- Only the last token ends the input. -/
theorem kind_eq_eof (h : InOrder start tokens) {i : Nat} (hi : tokens[i]? = some token) :
    token.kind = .eof ↔ i + 1 = tokens.length := by
  induction h generalizing i with
  | last hk =>
    cases i with
    | zero =>
      cases hi
      simp [hk]
    | succ i => cases hi
  | cons hk _ _ ht ih =>
    cases i with
    | zero =>
      cases hi
      cases ht <;> simp [hk]
    | succ i => simpa using ih hi

/-- What follows some tokens starts after them. -/
theorem drop (h : InOrder start (before ++ after)) (ha : after ≠ []) :
    InOrder (stopAfter start before) after := by
  induction before generalizing start with
  | nil => exact h
  | cons token before ih =>
    rw [stopAfter_cons]
    rcases h.cons_cases with ⟨-, hnil⟩ | ⟨-, -, h⟩
    · exact absurd (List.append_eq_nil_iff.1 hnil).2 ha
    · exact ih h

theorem le_stopAfter (h : InOrder start (before ++ after)) (hb : ∀ t ∈ before, t.kind ≠ .eof) :
    start ≤ stopAfter start before := by
  induction before generalizing start with
  | nil => exact Nat.le_refl _
  | cons token before ih =>
    rw [stopAfter_cons]
    obtain ⟨hk, hb'⟩ := List.forall_mem_cons.1 hb
    rcases h.cons_cases with ⟨heof, -⟩ | ⟨hl, hs, h⟩
    · exact absurd heof hk
    · have := ih h hb'
      omega

theorem stop_le_stopAfter (h : InOrder start (before ++ after))
    (hb : ∀ t ∈ before, t.kind ≠ .eof) (ht : token ∈ before) :
    token.span.stop ≤ stopAfter start before := by
  induction before generalizing start with
  | nil => cases ht
  | cons first before ih =>
    rw [stopAfter_cons]
    obtain ⟨hk, hb'⟩ := List.forall_mem_cons.1 hb
    rcases h.cons_cases with ⟨heof, -⟩ | ⟨hl, hs, h⟩
    · exact absurd heof hk
    · rcases List.mem_cons.1 ht with rfl | ht
      · exact h.le_stopAfter hb'
      · exact ih h hb' ht

end InOrder

def tokensWithin (span : Span) (tokens : List Token) : List Token :=
  tokens.filter fun token => token.kind != .eof && span.contains token.span

theorem tokensWithin_append (span : Span) (tokens more : List Token) :
    tokensWithin span (tokens ++ more) = tokensWithin span tokens ++ tokensWithin span more :=
  List.filter_append _ _

theorem tokensWithin_eq_nil {span : Span} {tokens : List Token}
    (h : ∀ t ∈ tokens, t.kind ≠ .eof → t.span.start < span.start ∨ span.stop < t.span.stop) :
    tokensWithin span tokens = [] := by
  rw [tokensWithin, List.filter_eq_nil_iff]
  intro token ht
  simp only [Span.contains, Bool.and_eq_true, bne_iff_ne, decide_eq_true_eq, not_and]
  intro hk hl
  have := h token ht hk
  omega

theorem tokensWithin_eq_self {span : Span} {tokens : List Token}
    (h : ∀ t ∈ tokens, t.kind ≠ .eof ∧ span.start ≤ t.span.start ∧ t.span.stop ≤ span.stop) :
    tokensWithin span tokens = tokens := by
  rw [tokensWithin, List.filter_eq_self]
  intro token ht
  simpa [Span.contains] using h token ht

theorem InOrder.start_le {start : Nat} {first token : Token} {tokens : List Token}
    (h : InOrder start tokens) (hf : tokens.head? = some first) (ht : token ∈ tokens) :
    first.span.start ≤ token.span.start := by
  obtain ⟨rest, rfl⟩ := List.head?_eq_some_iff.1 hf
  rcases List.mem_cons.1 ht with rfl | ht
  · exact Nat.le_refl _
  · rcases h.cons_cases with ⟨-, rfl⟩ | ⟨-, hs, hrest⟩
    · cases ht
    · have := hrest.le_of_mem ht
      omega

/-- The tokens within the span from a token to the last one passed are those passed from there. -/
theorem InOrder.tokensWithin_eq {start : Nat} {before passed after : List Token} {first : Token}
    (h : InOrder start (before ++ (passed ++ after))) (hb : ∀ t ∈ before, t.kind ≠ .eof)
    (hp : ∀ t ∈ passed, t.kind ≠ .eof) (hf : (passed ++ after).head? = some first) :
    tokensWithin ⟨first.span.start, max (stopAfter start (before ++ passed)) first.span.start⟩
      (before ++ (passed ++ after)) = passed := by
  have hrest : InOrder (stopAfter start before) (passed ++ after) := by
    apply h.drop
    rintro hnil
    simp [hnil] at hf
  have hstop : stopAfter start before ≤ first.span.start :=
    hrest.le_of_mem (List.mem_of_head? hf)
  rw [tokensWithin_append, tokensWithin_append, tokensWithin_eq_nil, tokensWithin_eq_self,
    tokensWithin_eq_nil, List.nil_append, List.append_nil]
  · intro token ht hk
    have hlt := hrest.start_lt_stop (List.mem_append_right _ ht) hk
    have hle := hrest.start_le hf (List.mem_append_right _ ht)
    have hdrop := (hrest.drop (List.ne_nil_of_mem ht)).le_of_mem ht
    rw [← stopAfter_append] at hdrop
    simp only
    omega
  · intro token ht
    have hle := hrest.start_le hf (List.mem_append_left _ ht)
    have hstop := hrest.stop_le_stopAfter hp ht
    rw [← stopAfter_append] at hstop
    exact ⟨hp token ht, hle, Nat.le_trans hstop (Nat.le_max_left _ _)⟩
  · intro token ht hk
    have hlt := h.start_lt_stop (List.mem_append_left _ ht) hk
    have hle := h.stop_le_stopAfter hb ht
    simp only
    omega

namespace Tokens

inductive ReadInOrder : Nat → List Reading → Prop
  | last (h : start ≤ stop) : ReadInOrder start [.token (.endAt (.emptyAt stop))]
  | token {token : Token} {readings : List Reading} (hl : start ≤ token.span.start)
      (hs : token.span.start < token.span.stop) (hr : ReadInOrder token.span.stop readings) :
      ReadInOrder start (.token token :: readings)
  | error (hl : start ≤ stop) (hr : ReadInOrder stop readings) :
      ReadInOrder start (.error error :: readings)

theorem drainOnto_inOrder (readings : Array Reading) {reader : Reader} {size : Nat}
    (hs : size ≤ Span.maxOffset) (hw : reader.Within size) (hf : reader.finished = false) :
    ∃ more, (reader.drainOnto readings).1.toList = readings.toList ++ more ∧
      ReadInOrder reader.offset more := by
  fun_induction Reader.drainOnto readings reader with
  | case1 readings reader hfin => simp [hf] at hfin
  | case2 readings reader hfin reading after hn readings' hd =>
    obtain ⟨hwa, hy⟩ := Reader.next_yields hs hw hf hn
    refine ⟨[reading], by simp [readings'], ?_⟩
    cases hy with
    | token _ _ _ hf => simp [hf] at hd
    | error _ hf => simp [hf] at hd
    | endOfInput hl => exact .last hl
  | case3 readings reader hfin reading after hn readings' hd ih =>
    obtain ⟨hwa, hy⟩ := Reader.next_yields hs hw hf hn
    have hfa : after.finished = false := by simpa using (not_or.1 hd).2
    obtain ⟨more, hm, hr⟩ := ih hwa hfa
    refine ⟨reading :: more, by simp [hm, readings'], ?_⟩
    cases hy with
    | token hl ht ha => exact .token hl ht (ha ▸ hr)
    | error hl => exact .error hl hr
    | endOfInput _ hf => simp [hf] at hfa

theorem finish_ok {tokens : Array Token} {errors : Array Error} {token : Token} {all : List Token}
    (h : collect.finish errors (tokens.push token) = .ok all) :
    all = tokens.toList ++ [token] := by
  unfold collect.finish at h
  split at h
  · cases h
    exact Array.toList_push
  · cases h

theorem collect_inOrder {options : Options} {file : String} {tokens : Array Token}
    {errors : Array Error} {readings : List Reading} {all : List Token} {start : Nat}
    (hr : ReadInOrder start readings) (h : collect options file tokens errors readings = .ok all) :
    ∃ more, all = tokens.toList ++ more ∧ InOrder start more := by
  induction hr generalizing tokens errors with
  | last hl =>
    simp only [collect, Token.endAt, if_true] at h
    exact ⟨_, finish_ok h, .last rfl hl⟩
  | @token _ token readings hl hs hr ih =>
    rw [collect] at h
    split at h
    · rename_i hk
      exact ⟨_, finish_ok h, .last hk hl⟩
    · rename_i hk
      have hrest : collect options file (tokens.push token) errors readings = .ok all := by
        split at h
        · split at h
          · cases h
          · exact h
        · exact h
      obtain ⟨more, hm, ho⟩ := ih hrest
      exact ⟨token :: more, by simp [hm], .cons hk hl hs ho⟩
  | error hl hr ih =>
    rw [collect] at h
    split at h
    · cases h
    · obtain ⟨more, hm, ho⟩ := ih h
      exact ⟨more, hm, ho.mono hl⟩

/-- The tokens of a source stand in order. -/
theorem ofSource_inOrder {source file : String} {options : Options} {tokens : Tokens}
    (h : ofSource source file options = .ok tokens) : InOrder 0 tokens.tokens := by
  unfold ofSource at h
  split at h
  · cases h
  · rename_i hb
    have hs : source.utf8ByteSize ≤ Span.maxOffset :=
      Nat.le_trans (Nat.le_of_not_lt hb) (Nat.min_le_right _ _)
    obtain ⟨readings, hr, ho⟩ := drainOnto_inOrder #[] hs
      (Reader.ofSource_within source file) rfl
    simp only [Reader.drain, hr, List.nil_append] at h
    cases hc : collect options file #[] #[] readings with
    | error errors => simp [hc, Except.map] at h
    | ok all =>
      simp only [hc, Except.map, Except.ok.injEq] at h
      subst h
      obtain ⟨more, hm, hi⟩ := collect_inOrder ho hc
      rw [hm]
      exact hi

end Tokens
end Smaug
