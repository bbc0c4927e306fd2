import Smaug.Proofs.Token.Regions

/-! # Where tokens and errors lie in a source

What is read of a source starts and ends between two characters, also the escape that an error is
about.  A token other than a string literal has the text that it covers for its value, and the
trivia cover none of it.
-/

namespace Smaug

/-! ## Offsets between two characters -/

namespace Text

def IsBoundary (cs : List Char) (offset : Nat) : Prop :=
  ∃ front back, cs = front ++ back ∧ size front = offset

theorem isBoundary_append (front back : List Char) : IsBoundary (front ++ back) (size front) :=
  ⟨front, back, rfl, rfl⟩

theorem IsBoundary.append {cs : List Char} {offset : Nat} (front : List Char)
    (h : IsBoundary cs offset) : IsBoundary (front ++ cs) (size front + offset) := by
  obtain ⟨before, after, rfl, rfl⟩ := h
  rw [← List.append_assoc, ← size_append]
  exact isBoundary_append _ _

theorem IsBoundary.le {cs : List Char} {offset : Nat} (h : IsBoundary cs offset) :
    offset ≤ size cs := by
  obtain ⟨front, back, rfl, rfl⟩ := h
  rw [size_append]
  exact Nat.le_add_right _ _

/-- A text is cut in three by two boundaries. -/
theorem IsBoundary.between {cs : List Char} {start stop : Nat} (hs : IsBoundary cs start)
    (ht : IsBoundary cs stop) (h : start ≤ stop) :
    ∃ front text back, cs = front ++ (text ++ back) ∧ size front = start ∧
      size front + size text = stop := by
  obtain ⟨front, tail, rfl, rfl⟩ := hs
  obtain ⟨head, back, hc, rfl⟩ := ht
  rcases List.append_eq_append_iff.1 hc with ⟨text, rfl, rfl⟩ | ⟨text, rfl, rfl⟩
  · exact ⟨front, text, back, rfl, rfl, (size_append _ _).symm⟩
  · -- the later boundary can only come first where nothing lies between them
    obtain rfl : text = [] := by
      by_contra hne
      have := size_pos hne
      rw [size_append] at h
      omega
    exact ⟨head, [], tail, by simp, by simp, by simp⟩

end Text

theorem Span.text?_of_isBoundary {source : String} {span : Span} (h : span.start ≤ span.stop)
    (hs : Text.IsBoundary source.toList span.start) (ht : Text.IsBoundary source.toList span.stop) :
    ∃ text, span.text? source = some text := by
  obtain ⟨front, text, back, hc, hstart, hstop⟩ := hs.between ht h
  obtain ⟨start, stop⟩ := span
  subst hstart hstop
  exact ⟨_, Span.text?_append hc⟩

/-! ## Lexemes -/

namespace Lexeme

theorem takeWhile_eq_take (p : Char → Bool) (cs : List Char) :
    cs.takeWhile p = cs.take (cs.takeWhile p).length :=
  List.prefix_iff_eq_take.1 (List.takeWhile_prefix p)

/-- Every token but a string literal has its text for a value. -/
theorem first_value {c : Char} {cs : List Char} {kind : Token.Kind} {value : String}
    (h : (first c cs).sort = .token kind value) (hk : kind ≠ .string) :
    value = String.ofList ((c :: cs).take (first c cs).length) := by
  unfold first at h ⊢
  split at h
  · cases h
  rename_i hblank
  split at h
  · cases h
  rename_i hline
  split at h
  · unfold blockComment at h
    split at h <;> cases h
  rename_i hblock
  split at h
  · unfold stringLiteral at h
    split at h
    · cases h
    · split at h <;> cases h
      exact absurd rfl hk
  rename_i hquote
  rw [if_neg hblank, if_neg hline, if_neg hblock, if_neg hquote]
  split at h
  · rename_i hname
    cases h
    rw [if_pos hname]
    simp only [List.length_cons, List.take_succ_cons, ← takeWhile_eq_take]
  rename_i hname
  rw [if_neg hname]
  split at h
  · rename_i hdigit
    cases h
    rw [if_pos hdigit]
    simp only [List.length_cons, List.take_succ_cons, ← takeWhile_eq_take]
  · rename_i hdigit
    rw [if_neg hdigit]
    cases hf : marks.find? fun m => m.1.isPrefixOf (c :: cs) with
    | none =>
      unfold mark at h
      simp [hf] at h
    | some found =>
      rw [mark_of_find? hf] at h ⊢
      cases h
      obtain ⟨hp, -⟩ := List.find?_eq_some_iff_append.1 hf
      rw [← List.prefix_iff_eq_take.1 (List.isPrefixOf_iff_prefix.1 hp)]

/-- A bad escape is a backslash and a character of the body. -/
theorem decodeBody_split {before offset : Nat} {decoded cs : List Char} {escape : Char}
    (h : decodeBody before decoded cs = .error (escape, offset)) :
    ∃ front back, cs = front ++ '\\' :: escape :: back ∧ offset = before + Text.size front := by
  have hslash : '\\'.utf8Size = 1 := rfl
  have hquote : '"'.utf8Size = 1 := rfl
  have hn : 'n'.utf8Size = 1 := rfl
  fun_induction decodeBody before decoded cs with
  | case1 => cases h
  | case2 before decoded cs ih | case3 before decoded cs ih | case4 before decoded cs ih =>
    obtain ⟨front, back, rfl, rfl⟩ := ih h
    refine ⟨_ :: _ :: front, back, rfl, ?_⟩
    simp only [Text.size_cons]
    omega
  | case5 before decoded c cs =>
    cases h
    exact ⟨[], cs, rfl, rfl⟩
  | case6 before decoded c cs _ _ _ _ ih =>
    obtain ⟨front, back, rfl, rfl⟩ := ih h
    exact ⟨c :: front, back, rfl, by rw [Text.size_cons, Nat.add_assoc]⟩

end Lexeme

/-! ## Regions -/

def Passed.span : Passed → Span
  | .trivia kept => kept.span
  | .reading (.token token) => token.span
  | .reading (.error error) => error.span
  | .reading .misplaced => .emptyAt 0

/-- What fills a region lies within it and is not empty. -/
theorem Passed.Fills.within {region : Span} {passed : Passed} (h : passed.Fills region)
    (hr : region.start < region.stop) :
    region.start ≤ passed.span.start ∧ passed.span.start < passed.span.stop ∧
      passed.span.stop ≤ region.stop := by
  match passed, h with
  | .trivia kept, h =>
    rw [Passed.span, show kept.span = region from h]
    exact ⟨Nat.le_refl _, hr, Nat.le_refl _⟩
  | .reading (.token token), h =>
    rw [Passed.span, h.1]
    exact ⟨Nat.le_refl _, hr, Nat.le_refl _⟩
  | .reading (.error error), ⟨hc, hlt, _⟩ =>
    simp only [Span.contains, Bool.and_eq_true, decide_eq_true_eq] at hc
    exact ⟨hc.1, hlt, hc.2⟩

section
variable {file : String} {text front cs : List Char}

/-- Every region is that of the lexeme at its place. -/
theorem regions_lexeme (h : text = front ++ cs) :
    ∀ item ∈ regions file (Text.size front) cs, ∃ before c after,
      text = before ++ c :: after ∧
        let lexeme := Lexeme.first c after
        let stop := Text.size before + Text.size ((c :: after).take lexeme.length)
        item = (⟨Text.size before, stop⟩, lexeme.sort.passed file (Text.size before) stop) := by
  generalize hstart : Text.size front = start
  fun_induction regions file start cs generalizing front with
  | case1 => simp
  | case2 start c cs lexeme stop =>
    rename_i ih
    subst hstart
    refine List.forall_mem_cons.2 ⟨⟨front, c, cs, h, rfl⟩, ?_⟩
    have hrest : text =
        (front ++ (c :: cs).take lexeme.length) ++ (c :: cs).drop lexeme.length := by
      rw [h, List.append_assoc, List.take_append_drop]
    exact ih hrest (Text.size_append _ _)

/-- What is passed starts and ends between two characters. -/
theorem regions_isBoundary (h : text = front ++ cs) :
    ∀ item ∈ regions file (Text.size front) cs,
      Text.IsBoundary text item.2.span.start ∧ Text.IsBoundary text item.2.span.stop := by
  intro item hi
  obtain ⟨before, c, after, rfl, rfl⟩ := regions_lexeme h item hi
  have hregion : Text.IsBoundary (before ++ c :: after) (Text.size before) ∧
      Text.IsBoundary (before ++ c :: after) (Text.size before +
        Text.size ((c :: after).take (Lexeme.first c after).length)) := by
    refine ⟨Text.isBoundary_append _ _, .append _ ?_⟩
    exact ⟨_, _, (List.take_append_drop _ _).symm, rfl⟩
  cases hs : (Lexeme.first c after).sort with
  | trivia | token | malformed => exact hregion
  | badEscape escape offset =>
    obtain ⟨rfl, n, -, -, hd⟩ := Lexeme.first_badEscape hs
    obtain ⟨body, back, hbody, rfl⟩ := Lexeme.decodeBody_split hd
    have hall : before ++ '"' :: after =
        (before ++ '"' :: body) ++ (['\\', escape] ++ (back ++ after.drop n)) := by
      conv_lhs => rw [← List.take_append_drop n after, hbody]
      simp
    have hquote : '"'.utf8Size = 1 := rfl
    have hslash : '\\'.utf8Size = 1 := rfl
    simp only [Lexeme.Sort.passed, Passed.span, hall]
    constructor
    · convert Text.isBoundary_append (before ++ '"' :: body) _ using 1
      simp only [Text.size_append, Text.size_cons]
      omega
    · rw [← List.append_assoc]
      convert Text.isBoundary_append (before ++ '"' :: body ++ ['\\', escape]) _ using 1
      simp only [Text.size_append, Text.size_cons, Text.size_nil]
      omega

/-- A token that is no string literal has the text that it covers for a value. -/
theorem regions_value {source : String} {region : Span} {token : Token}
    (hi : (region, .reading (.token token)) ∈ regions file 0 source.toList)
    (hk : token.kind ≠ .string) : token.span.text? source = some token.value := by
  obtain ⟨before, c, after, hsource, hitem⟩ := regions_lexeme (List.nil_append _).symm _ hi
  cases hs : (Lexeme.first c after).sort with
  | token kind value =>
    simp only [hs] at hitem
    cases hitem
    rw [Lexeme.first_value hs hk]
    rw [← List.take_append_drop (Lexeme.first c after).length (c :: after)] at hsource
    exact Span.text?_append hsource
  | trivia | malformed | badEscape =>
    simp only [hs] at hitem
    cases hitem

end

/-! ## The tokens of a source -/

theorem Tiles.le {start stop : Nat} {spans : List Span} (h : Tiles start stop spans) :
    start ≤ stop ∧
      ∀ span ∈ spans, start ≤ span.start ∧ span.start < span.stop ∧ span.stop ≤ stop := by
  induction h with
  | nil => simp
  | cons hlt _ ih =>
    refine ⟨by omega, List.forall_mem_cons.2 ⟨⟨Nat.le_refl _, hlt, ih.1⟩, fun span hs => ?_⟩⟩
    have := ih.2 span hs
    omega

/-- Of two regions, the first ends before the second starts. -/
theorem Tiles.pairwise {start stop : Nat} {spans : List Span} (h : Tiles start stop spans) :
    spans.Pairwise fun a b => a.stop ≤ b.start := by
  induction h with
  | nil => exact .nil
  | cons _ ht ih => exact .cons (fun span hs => (ht.le.2 span hs).1) ih

theorem regions_pairwise (file : String) (start : Nat) (cs : List Char) :
    (regions file start cs).Pairwise fun a b => a.2.span.stop ≤ b.2.span.start := by
  have ht := regions_tile file start cs
  have hw (item) (hi : item ∈ regions file start cs) :=
    (regions_fill file start cs item hi).within (ht.le.2 item.1 (List.mem_map_of_mem hi)).2.1
  refine ((List.pairwise_map.1 ht.pairwise).imp_of_mem ?_)
  intro a b ha hb h
  have := hw a ha
  have := hw b hb
  omega

/-- Of two things passed, one lies before the other. -/
theorem regions_apart {file : String} {start : Nat} {cs : List Char} {a b : Span × Passed}
    (ha : a ∈ regions file start cs) (hb : b ∈ regions file start cs) (hne : a ≠ b) :
    a.2.span.stop ≤ b.2.span.start ∨ b.2.span.stop ≤ a.2.span.start := by
  let R (a b : Span × Passed) := a.2.span.stop ≤ b.2.span.start ∨ b.2.span.stop ≤ a.2.span.start
  have hsymm : Std.Symm R := ⟨fun _ _ h => h.symm⟩
  have hpair : (regions file start cs).Pairwise R := (regions_pairwise file start cs).imp .inl
  exact hpair.forall ha hb hne

namespace Tokens

theorem mem_of_collect {options : Options} {file : String} {readings : List Reading}
    {tokens : Array Token} {errors : Array Error} {all : List Token}
    (h : collect options file tokens errors readings = .ok all) {token : Token} (ht : token ∈ all) :
    token ∈ tokens ∨ .token token ∈ readings := by
  have hfinish {tokens : Array Token} {errors : Array Error}
      (h : collect.finish errors tokens = .ok all) : token ∈ tokens := by
    unfold collect.finish at h
    split at h
    · cases h
      simpa using ht
    · cases h
  fun_induction collect options file tokens errors readings with
  | case1 tokens errors last readings hk =>
    have := hfinish h
    simp only [Array.mem_push, List.mem_cons, Reading.token.injEq] at this ⊢
    tauto
  | case2 => cases h
  | case3 tokens errors other readings hk max hm hlt ih
  | case4 tokens errors other readings hk hm ih =>
    have := ih h
    simp only [Array.mem_push, List.mem_cons, Reading.token.injEq] at this ⊢
    tauto
  | case5 => cases h
  | case6 tokens errors error readings hs ih => simpa using ih h
  | case7 => exact .inl (hfinish h)
  | case8 => exact .inl (hfinish h)

/-- The error that a reading gives rise to: its own, or that of a token beyond the limit. -/
def blamed (options : Options) (file : String) : Reading → Option Error
  | .token token =>
    if token.kind = .eof then none else options.maxTokens.map (tooManyTokens token · file)
  | .error error => some error
  | .misplaced => none

theorem collect_blamed {options : Options} {file : String} {readings : List Reading}
    {tokens : Array Token} {errors : Array Error} {all : List Error}
    (h : collect options file tokens errors readings = .error all) :
    ∃ more, all = errors.toList ++ more ∧
      more.Sublist (readings.filterMap (blamed options file)) := by
  have hfinish {tokens : Array Token} {errors : Array Error}
      (h : collect.finish errors tokens = .error all) : all = errors.toList ++ [] := by
    unfold collect.finish at h
    split at h
    · cases h
    · cases h
      simp
  fun_induction collect options file tokens errors readings with
  | case1 | case7 | case8 => exact ⟨[], hfinish h, List.nil_sublist _⟩
  | case2 tokens errors token readings hk max hm hlt =>
    cases h
    refine ⟨[tooManyTokens token max file], Array.toList_push, ?_⟩
    simp [blamed, hk, hm]
  | case3 tokens errors token readings hk max hm hlt ih
  | case4 tokens errors token readings hk hm ih =>
    obtain ⟨more, hall, hs⟩ := ih h
    refine ⟨more, hall, hs.trans ?_⟩
    simp [blamed, hk, hm]
  | case5 tokens errors error readings hs =>
    cases h
    exact ⟨[error], Array.toList_push, by simp [blamed]⟩
  | case6 tokens errors error readings hs ih =>
    obtain ⟨more, hall, hs⟩ := ih h
    exact ⟨error :: more, by simp [hall], by simpa [blamed] using hs⟩

/-- The tokens of a source but the last, and its trivia, are what its regions are passed for. -/
theorem ofSource_items {source file : String} {options : Options} {tokens : Tokens}
    (h : ofSource source file options = .ok tokens) :
    (∀ token ∈ tokens.tokens, token.kind ≠ .eof →
      ∃ region, (region, .reading (.token token)) ∈ regions file 0 source.toList) ∧
    tokens.trivia.toList = (regions file 0 source.toList).filterMap fun item => item.2.trivia? := by
  obtain ⟨before, last, -, -, -, -, hdrain, htrivia⟩ :=
    Reader.ofSource_run source file (ofSource_size h)
  unfold ofSource at h
  split at h
  · cases h
  simp only [hdrain, Except.map] at h
  split at h
  · cases h
  rename_i all hc
  cases h
  refine ⟨fun token ht hk => ?_, htrivia⟩
  rcases mem_of_collect hc ht with hm | hm
  · simp at hm
  rcases List.mem_append.1 hm with hm | hm
  · obtain ⟨⟨region, passed⟩, hi, hp⟩ := List.mem_filterMap.1 hm
    cases passed with
    | trivia => cases hp
    | reading reading =>
      cases hp
      exact ⟨region, hi⟩
  · cases List.mem_singleton.1 hm
    exact absurd rfl hk

/-- The errors of a source that is not too large are those of its regions, and at the end that of a
token beyond the limit. -/
theorem ofSource_blamed {source file : String} {options : Options} {errors : List Error}
    (h : ofSource source file options = .error errors) :
    options.byteLimit < source.utf8ByteSize ∧
        errors = [tooManyBytes source.utf8ByteSize options.byteLimit file] ∨
      source.utf8ByteSize ≤ options.byteLimit ∧
        errors.Sublist ((regions file 0 source.toList).filterMap fun item =>
          item.2.reading?.bind (blamed options file)) := by
  unfold ofSource at h
  split at h
  · rename_i hb
    cases h
    exact .inl ⟨hb, rfl⟩
  rename_i hb
  have hsize : source.utf8ByteSize ≤ options.byteLimit := Nat.le_of_not_lt hb
  obtain ⟨before, last, -, -, -, -, hdrain, -⟩ :=
    Reader.ofSource_run source file (Nat.le_trans hsize (Nat.min_le_right _ _))
  simp only [hdrain, Except.map] at h
  split at h
  · rename_i all hc
    cases h
    obtain ⟨more, rfl, hs⟩ := collect_blamed hc
    refine .inr ⟨hsize, ?_⟩
    rw [List.filterMap_append, List.filterMap_filterMap] at hs
    simpa [blamed, Token.endAt] using hs
  · cases h

/-- A token that is no string literal has the text that it covers for a value. -/
theorem ofSource_value {source file : String} {options : Options} {tokens : Tokens}
    (h : ofSource source file options = .ok tokens) {token : Token} (ht : token ∈ tokens.tokens)
    (hk : token.kind ≠ .eof) (hs : token.kind ≠ .string) :
    token.span.text? source = some token.value := by
  obtain ⟨region, hi⟩ := (ofSource_items h).1 token ht hk
  exact regions_value hi hs

/-- A token starts and ends between two characters. -/
theorem ofSource_isBoundary {source file : String} {options : Options} {tokens : Tokens}
    (h : ofSource source file options = .ok tokens) {token : Token} (ht : token ∈ tokens.tokens)
    (hk : token.kind ≠ .eof) :
    Text.IsBoundary source.toList token.span.start ∧
      Text.IsBoundary source.toList token.span.stop := by
  obtain ⟨region, hi⟩ := (ofSource_items h).1 token ht hk
  exact regions_isBoundary (List.nil_append _).symm _ hi

/-- No piece of trivia covers anything of a token. -/
theorem ofSource_apart {source file : String} {options : Options} {tokens : Tokens}
    (h : ofSource source file options = .ok tokens) {token : Token} (ht : token ∈ tokens.tokens)
    (hk : token.kind ≠ .eof) {trivia : Trivia} (hv : trivia ∈ tokens.trivia) :
    trivia.span.stop ≤ token.span.start ∨ token.span.stop ≤ trivia.span.start := by
  obtain ⟨hread, htrivia⟩ := ofSource_items h
  obtain ⟨region, hi⟩ := hread token ht hk
  rw [← Array.mem_toList_iff, htrivia] at hv
  obtain ⟨⟨region', passed⟩, hj, hp⟩ := List.mem_filterMap.1 hv
  cases passed with
  | reading => cases hp
  | trivia kept =>
    cases hp
    exact regions_apart hj hi (by simp)

end Tokens
end Smaug
