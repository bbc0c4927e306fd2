import Mathlib
import Smaug.Proofs.Parse.Brackets.Module
import Smaug.Proofs.Parse.Recovery
import Smaug.Proofs.Parse.Script
import Smaug.Proofs.Report.Caret
import Smaug.Proofs.Token.Boundary
import Smaug.Report.Diagnostic

/-! # Where the errors of a source lie

The errors of a source come in the order of the source and do not overlap.  Each reaches from the
start of a token to the end of one, for the two limits on the source apart, names the file, and can
be shown as a diagnostic, and with a caret unless that is too far to the right.

What fails is blamed on tokens not yet blamed: the parse goes on behind the token at which it
failed, or at that token if a statement starts there, and then the statement passes it first.
-/

namespace Smaug

def Error.Before (a b : Error) : Prop :=
  a.span.start < b.span.start ∧ a.span.stop ≤ b.span.start

/-- An error reaches from the start of the token at `first` to the end of the one at `last`. -/
def Error.Reaches (error : Error) (tokens : List Token) (first last : Nat) : Prop :=
  ∃ opening failed, first ≤ last ∧ tokens[first]? = some opening ∧ tokens[last]? = some failed ∧
    error.span = ⟨opening.span.start, failed.span.stop⟩

def Error.LeftBehind (error : Error) (tokens : List Token) (place : Nat) : Prop :=
  ∃ first last token, error.Reaches tokens first last ∧ tokens[last]? = some token ∧
    (last < place ∨ last = place ∧ token.kind.startsAgain)

theorem Error.LeftBehind.mono {error : Error} {tokens : List Token} {place place' : Nat}
    (h : error.LeftBehind tokens place) (hlt : place < place') :
    error.LeftBehind tokens place' := by
  obtain ⟨first, last, token, hr, ht, hle⟩ := h
  exact ⟨first, last, token, hr, ht, .inl (by omega)⟩

/-- An error lies before what is blamed where the parse goes on. -/
theorem Error.LeftBehind.before {a b : Error} {tokens : List Token} {start place first last : Nat}
    {token : Token} (ha : a.LeftBehind tokens place) (ho : InOrder start tokens)
    (hb : b.Reaches tokens first last) (ht : tokens[place]? = some token) (hle : place ≤ first)
    (hlt : token.kind.startsAgain → place < first) : a.Before b := by
  obtain ⟨_, passed, token', ⟨opening, failed, hi, hopen, hfailed, ha⟩, ht', hpassed⟩ := ha
  obtain ⟨later, _, -, hlater, -, hb⟩ := hb
  have hij : passed < first := by
    rcases hpassed with h | ⟨rfl, hk⟩
    · omega
    · obtain rfl := Option.some.inj (ht.symm.trans ht')
      exact hlt hk
  have hstart := ho.start_le_of_le hi hopen hfailed
  have hstop := ho.lt_of_lt hij hfailed hlater
  rw [Before, ha, hb]
  dsimp only
  omega

/-- A bracket is no token at which the parse goes on. -/
theorem Token.Kind.startsAgain_of_opening? {kind : Kind} {delimiter : Char}
    (h : kind.opening? = some delimiter) : kind.startsAgain = false := by
  cases kind <;> first | rfl | cases h

/-- An end of the input that is blamed on a bracket reaches from that bracket to the end. -/
theorem Error.Blames.reaches {error : Error} {opening last : Token} {opened tokens : List Token}
    {start first stop : Nat} (h : error.Blames last (opening :: opened)) (ho : InOrder start tokens)
    (hs : ∀ token ∈ tokens, token.span.start ≤ token.span.stop)
    (hopening : tokens[first]? = some opening) (hlast : tokens[stop]? = some last)
    (hk : last.kind = .eof) : error.Reaches tokens first stop := by
  obtain ⟨delimiter, _, hd, -, hspan⟩ := h
  have hne : opening.kind ≠ .eof := by
    intro hk
    rw [hk] at hd
    cases hd
  have hlt : first < stop := by
    have hend := (ho.kind_eq_eof hlast).1 hk
    have hnot := mt (ho.kind_eq_eof hopening).2 hne
    have := (List.getElem?_eq_some_iff.1 hopening).1
    omega
  refine ⟨opening, last, hlt.le, hopening, hlast, ?_⟩
  have hstart := ho.lt_of_lt hlt hopening hlast
  have hstop := hs _ (List.mem_of_getElem? hlast)
  rw [hspan, Span.merge, Nat.min_eq_left (by omega), Nat.max_eq_right (by omega)]

/-- An error is about the token at which it is raised, unless that ends the input. -/
theorem Error.RaisedAt.span_eq {error : Error} {token : Token} (h : error.RaisedAt token) :
    error.span = token.span ∨ token.kind = .eof ∧ error.classify ≠ .resource := by
  unfold RaisedAt at h
  split at h
  · rename_i hc
    exact .inr ⟨h, by simp [classify, Cause.classify, hc]⟩
  · rename_i hc
    exact .inr ⟨h, by simp [classify, Cause.classify, hc]⟩
  · exact .inl h

/-- The parse goes on at the token at which it has failed only if a statement starts there. -/
theorem startsAgain_of_resumeAt {tokens : List Token} {start failed : Nat} {token : Token}
    (hle : start ≤ failed) (ht : tokens[failed]? = some token)
    (h : resumeAt tokens start failed = failed) : token.kind.startsAgain := by
  have hlt : start < failed := h ▸ (lt_resumeAt tokens hle).1
  have hd : tokens.drop failed = token :: tokens.drop (failed + 1) := by
    obtain ⟨hl, rfl⟩ := List.getElem?_eq_some_iff.1 ht
    exact List.drop_eq_getElem_cons hl
  have hne : ¬(failed = start ∧ (tokens[start]?.map Token.kind) = some .closeCurly) := by omega
  simp only [resumeAt, if_neg hne, if_pos hlt, placeFrom, hd, List.findIdx_cons] at h
  by_contra hk
  simp only [Bool.not_eq_true] at hk
  simp only [hk, cond_false] at h
  omega

namespace Parse

open Grammar

variable {setup : Setup} {strict : Bool} {tokens : List Token} {s s' : State} {error : Error}

theorem advance_bind_stopped {next : Token → Parse α} [∀ token, Keeps (next token)]
    (he : s.Ended) (ht : s.hasTokens)
    (h : (advance >>= next) setup s = .stopped (.error error) s') : s'.remaining < s.remaining :=
  have h : next s.current setup s.advance = .stopped (.error error) s' := h
  Nat.lt_of_le_of_lt (kept_of_stopped h).remaining_le (he.remaining_advance ht)

/-- A statement at which the parse goes on fails behind its first token. -/
theorem statement_stopped (htable : setup.table = .standard) (he : s.Ended) (ht : s.hasTokens)
    (hk : s.kind.startsAgain)
    (h : (Rule.form .statement).parse setup s = .stopped (.error error) s') :
    s'.remaining < s.remaining := by
  obtain ⟨fuel, hfuel⟩ : ∃ fuel, Rule.fuel setup s = fuel + 2 :=
    ⟨Rule.fuel setup s - 2, by unfold Rule.fuel; omega⟩
  rw [Rule.parse, hfuel] at h
  have hform (form : Form) (hf : Table.standard.statement s.kind = some form) :
      form.body (Rule.runWith fuel) setup s = .stopped (.error error) s' := by
    have h : statement (Rule.runWith (fuel + 1)) setup s = .stopped (.error error) s' := h
    simp only [statement, Bind.bind, Parse.bind, given, look, htable, hf] at h
    exact h
  have hkind : s.kind = .letWord ∨ s.kind = .importWord := by
    have hne : s.kind ≠ .eof := by simpa [State.hasTokens] using ht
    simpa [Token.Kind.startsAgain, hne] using hk
  rcases hkind with hk | hk
  · have h : letStatement (Rule.runWith fuel) setup s = .stopped (.error error) s' :=
      hform .letStatement (by rw [hk]; rfl)
    refine @advance_bind_stopped _ _ _ _ _ _ (fun token => keeps_bind (look State.kind) ?_) he ht h
    intro kind
    split <;> infer_instance
  · have h : importStatement setup s = .stopped (.error error) s' :=
      hform .importStatement (by rw [hk]; rfl)
    exact advance_bind_stopped he ht h

/-- What fails is raised at the token that it has come to, which is not the first one if the parse
may have gone on there. -/
theorem Fails.raisedAt (htable : setup.table = .standard)
    (h : Fails setup strict tokens error s s') :
    error.RaisedAt s'.current ∧ (s.kind.startsAgain → s'.remaining < s.remaining) := by
  have he := (State.start_ended tokens).grow h.kept.1.toGrown
  cases h with
  | header h =>
    have hset := header_isSettled htable he
    rw [h] at hset
    refine ⟨hset, fun hk => ?_⟩
    cases hm : (State.start tokens).current.isWord "module" with
    | true =>
      have hi : (State.start tokens).kind = .identifier := by
        simpa [State.kind] using (Bool.and_eq_true_iff.1 hm).1
      rw [hi] at hk
      cases hk
    | false => cases (header_none hm).symm.trans h
  | statement _ ht h =>
    have hset : ((Rule.form .statement).parse setup s).IsSettled :=
      parse_isSettled htable he trivial (List.forall_mem_nil _)
    rw [h] at hset
    exact ⟨hset, fun hk => statement_stopped htable he ht hk h⟩

/-- What fails is blamed on tokens from the first one of the header or statement on, and not on that
one if the parse may have gone on there. -/
theorem Fails.reaches (htable : setup.table = .standard) {start place : Nat}
    (ho : InOrder start tokens) (hs : ∀ token ∈ tokens, token.span.start ≤ token.span.stop)
    (hp : s.tokens = tokens.drop place) (h : Fails setup strict tokens error s s') :
    ∃ first, place ≤ first ∧ (s.kind.startsAgain → place < first) ∧
      error.Reaches tokens first (place + (s.remaining - s'.remaining)) := by
  have hcurrent := current_of_place (h.kept.2.toGrown.drop hp)
  obtain ⟨hraised, hlt⟩ := h.raisedAt htable
  generalize hfailed : place + (s.remaining - s'.remaining) = failed at hcurrent ⊢
  have hown (hspan : error.span = s'.current.span) :
      ∃ first, place ≤ first ∧ (s.kind.startsAgain → place < first) ∧
        error.Reaches tokens first failed := by
    refine ⟨failed, by omega, fun hk => ?_, _, _, Nat.le_refl _, hcurrent, hcurrent, hspan⟩
    have := hlt hk
    omega
  rcases hraised.span_eq with hspan | ⟨hk, hc⟩
  · exact hown hspan
  have hend : s'.hasTokens = false := by simp [State.hasTokens, State.kind, hk]
  have hsuffix : s'.tokens <:+ tokens := by
    rw [h.kept.2.toGrown.drop hp]
    exact List.drop_suffix _ _
  have hblames := h.blames htable hc hend (ahead_of_end ho hsuffix hend)
  cases hopen : openBrackets s.tokens with
  | nil =>
    rw [hopen] at hblames
    exact hown hblames.2
  | cons opening opened =>
    rw [hopen] at hblames
    obtain ⟨k, hget⟩ := List.mem_iff_getElem?.1
      (mem_of_mem_openBrackets (hopen ▸ List.mem_cons_self : opening ∈ openBrackets s.tokens))
    have hplace : tokens[place + k]? = some opening := by rwa [hp, List.getElem?_drop] at hget
    refine ⟨place + k, Nat.le_add_right _ _, fun hagain => ?_,
      hblames.reaches ho hs hplace hcurrent hk⟩
    rcases Nat.eq_zero_or_pos k with rfl | hk
    · obtain rfl : s.current = opening := Option.some.inj hget
      obtain ⟨_, _, hd, -⟩ := hblames
      have hagain : s.current.kind.startsAgain := hagain
      rw [Token.Kind.startsAgain_of_opening? hd] at hagain
      cases hagain
    · omega

/-- The errors so far lie one before the other, and the parse goes on at `place` after them. -/
structure Ordered (tokens : List Token) (place : Nat) (errors : List Error) : Prop where
  pairwise : errors.Pairwise Error.Before
  leftBehind : ∀ error ∈ errors, error.LeftBehind tokens place

theorem Ordered.nil (tokens : List Token) (place : Nat) : Ordered tokens place [] :=
  ⟨.nil, List.forall_mem_nil _⟩

theorem Ordered.mono {place place' : Nat} {errors : List Error} (h : Ordered tokens place errors)
    (hlt : place < place') : Ordered tokens place' errors :=
  ⟨h.pairwise, fun error he => (h.leftBehind error he).mono hlt⟩

section
variable {start place : Nat} {errors : List Error}

/-- What fails next lies behind all errors so far. -/
theorem Ordered.pairwise_concat (h : Ordered tokens place errors)
    (htable : setup.table = .standard) (ho : InOrder start tokens)
    (hs : ∀ token ∈ tokens, token.span.start ≤ token.span.stop)
    (hp : s.tokens = tokens.drop place) (hf : Fails setup strict tokens error s s') :
    (errors ++ [error]).Pairwise Error.Before := by
  obtain ⟨first, hle, hlt, hr⟩ := hf.reaches htable ho hs hp
  refine List.pairwise_append.2 ⟨h.pairwise, List.pairwise_singleton _ _, fun a ha b hb => ?_⟩
  obtain rfl := List.mem_singleton.1 hb
  exact (h.leftBehind a ha).before ho hr (current_of_place hp) hle hlt

/-- After a failure the parse goes on behind it. -/
theorem Ordered.concat (h : Ordered tokens place errors)
    (htable : setup.table = .standard) (ho : InOrder start tokens)
    (hs : ∀ token ∈ tokens, token.span.start ≤ token.span.stop)
    (hp : s.tokens = tokens.drop place) (hf : Fails setup strict tokens error s s') :
    Ordered tokens (resumeAt tokens place (place + (s.remaining - s'.remaining)))
      (errors ++ [error]) where
  pairwise := h.pairwise_concat htable ho hs hp hf
  leftBehind := by
    have hle := lt_resumeAt tokens (Nat.le_add_right place (s.remaining - s'.remaining))
    refine List.forall_mem_append.2 ⟨fun e he => (h.leftBehind e he).mono hle.1, ?_⟩
    refine List.forall_mem_singleton.2 ?_
    obtain ⟨first, -, -, hr⟩ := hf.reaches htable ho hs hp
    have hcurrent := current_of_place (hf.kept.2.toGrown.drop hp)
    refine ⟨first, _, s'.current, hr, hcurrent, ?_⟩
    rcases Nat.eq_or_lt_of_le hle.2 with heq | hlt
    · exact .inr ⟨heq, startsAgain_of_resumeAt (Nat.le_add_right _ _) hcurrent heq.symm⟩
    · exact .inl hlt

end

/-- The errors of statements lie one before the other. -/
theorem topLevel_pairwise (htable : setup.table = .standard) {start place turns : Nat}
    (ho : InOrder start tokens) (hs : ∀ token ∈ tokens, token.span.start ≤ token.span.stop)
    {ids : Array NodeId} {errors : Array Error} (hd : Due setup strict tokens s)
    (hp : s.tokens = tokens.drop place) (h : Ordered tokens place errors.toList) :
    (topLevel setup strict turns s ids errors).errors.toList.Pairwise Error.Before := by
  induction turns generalizing s place ids errors with
  | zero => exact h.pairwise
  | succ turns ih =>
    have he := (State.start_ended tokens).grow hd.kept.toGrown
    cases ht : s.hasTokens with
    | false =>
      rw [topLevel_end ht]
      exact h.pairwise
    | true =>
      cases hr : (Rule.form .statement).parse setup s with
      | done id s₁ =>
        have hk := kept_of_done hr
        have hlt := passes (Rule.form .statement).parse htable he hr
        rw [topLevel_statement ht hr]
        exact ih (hd.statement ht hr) (hk.toGrown.drop hp) (h.mono (by omega))
      | stopped why s₁ =>
        cases why with
        | error error =>
          have hf : Fails setup strict tokens error s s₁ := .statement hd ht hr
          by_cases hc : error.classify = .resource
          · rw [topLevel_limit ht hr hc, Array.toList_push]
            exact h.pairwise_concat htable ho hs hp hf
          · cases strict with
            | true =>
              simp only [topLevel, ht, if_true, hr, hc, if_false, Array.toList_push]
              exact h.pairwise_concat htable ho hs hp hf
            | false =>
              rw [topLevel_recover ht hr hc]
              refine ih (hd.skipStatement rfl ht hr hc)
                (recover_place he ht hp (kept_of_stopped hr)) ?_
              rw [Array.toList_push]
              exact h.concat htable ho hs hp hf
        | missingNode | exhausted =>
          simp only [topLevel, ht, if_true, hr]
          exact h.pairwise

/-- Every error of a module names the file. -/
theorem Fails.file (h : Fails setup strict tokens error s s') : error.file = some setup.file := by
  cases h with
  | header h => exact Script.file inferInstance h
  | statement _ _ h => exact Script.file (Script.instRunWith _ _) h

end Parse

open Parse

/-- The errors of a module lie one before the other. -/
theorem Parsed.ofTokens_pairwise {tokens : Tokens} {file : String} {options : Options} {start : Nat}
    (ho : InOrder start tokens.tokens)
    (hs : ∀ token ∈ tokens.tokens, token.span.start ≤ token.span.stop) :
    (ofTokens tokens file options).errors.Pairwise Error.Before := by
  have hp : (State.start tokens.tokens).tokens = tokens.tokens.drop 0 := by
    rw [State.start_tokens, State.ended_of_inOrder ho, List.drop_zero]
  have he := State.start_ended tokens.tokens
  unfold ofTokens
  cases hd : header (.standard file options) (State.start tokens.tokens) with
  | done first s =>
    simp only [hd]
    exact topLevel_pairwise rfl ho hs (.header hd) ((kept_of_done hd).toGrown.drop hp) (.nil _ _)
  | stopped why s =>
    simp only [hd]
    cases why with
    | missingNode | exhausted => exact .nil
    | error error =>
      cases options.isStrict with
      | true => exact List.pairwise_singleton _ _
      | false =>
        have hf : Fails (.standard file options) false tokens.tokens error _ s := .header hd
        exact topLevel_pairwise rfl ho hs (.skipHeader rfl hd)
          (recover_place he (hasTokens_of_header hd) hp (kept_of_stopped hd))
          ((Ordered.nil _ 0).concat rfl ho hs hp hf)

/-! ## The errors of a source -/

/-- An error names the file, and its span is a part of the source, between two characters unless it
is about the size of the source. -/
structure Error.Placed (source file : String) (error : Error) : Prop where
  file : error.file = some file
  le : error.span.start ≤ error.span.stop
  stop_le : error.span.stop ≤ source.utf8ByteSize
  boundary : (∀ max, error.cause ≠ .limitExceeded .bytes max) →
    Text.IsBoundary source.toList error.span.start ∧ Text.IsBoundary source.toList error.span.stop

namespace Tokens

variable {source file : String} {options : Options}

/-- A token starts and ends between two characters, also the one that ends the input. -/
theorem isBoundary_of_mem {tokens : Tokens} (h : ofSource source file options = .ok tokens)
    {token : Token} (ht : token ∈ tokens.tokens) :
    Text.IsBoundary source.toList token.span.start ∧
      Text.IsBoundary source.toList token.span.stop := by
  by_cases hk : token.kind = .eof
  · have hlast := (ofSource_lexed h).getLast?
    obtain ⟨i, hi⟩ := List.mem_iff_getElem?.1 ht
    have hlen := ((ofSource_inOrder h).kind_eq_eof hi).1 hk
    have hi' : tokens.tokens[tokens.tokens.length - 1]? = some token := by
      rwa [← hlen, Nat.add_sub_cancel]
    obtain rfl : token = .endAt (.emptyAt (0 + Text.size source.toList)) := by
      rw [List.getLast?_eq_getElem?, hi'] at hlast
      exact Option.some.inj hlast
    have hend : Text.IsBoundary source.toList (0 + Text.size source.toList) :=
      ⟨source.toList, [], (List.append_nil _).symm, (Nat.zero_add _).symm⟩
    exact ⟨hend, hend⟩
  · exact ofSource_isBoundary h ht hk

/-- The error that a region gives rise to is about what fills the region. -/
theorem placed_of_region {item : Span × Passed} {error : Error}
    (hi : item ∈ regions file 0 source.toList)
    (he : item.2.reading?.bind (blamed options file) = some error) :
    error.span = item.2.span ∧ error.file = some file := by
  obtain ⟨before, c, after, -, rfl⟩ := regions_lexeme (List.nil_append _).symm item hi
  dsimp only at he ⊢
  cases hs : (Lexeme.first c after).sort with
  | trivia => simp [hs, Lexeme.Sort.passed, Passed.reading?] at he
  | token kind value =>
    simp only [hs, Lexeme.Sort.passed, Passed.reading?, Option.bind_some, blamed] at he
    split at he
    · cases he
    · obtain ⟨max, -, rfl⟩ := Option.map_eq_some_iff.1 he
      exact ⟨rfl, rfl⟩
  | malformed | badEscape =>
    simp only [hs, Lexeme.Sort.passed, Passed.reading?, Option.bind_some, blamed,
      Option.some.injEq] at he
    subst he
    exact ⟨rfl, rfl⟩

/-- The errors of a source that cannot be taken apart. -/
theorem ofSource_errors_placed {errors : List Error}
    (h : ofSource source file options = .error errors) :
    errors.Pairwise Error.Before ∧ ∀ error ∈ errors, error.Placed source file := by
  rcases ofSource_blamed h with ⟨hb, rfl⟩ | ⟨-, hs⟩
  · refine ⟨List.pairwise_singleton _ _, List.forall_mem_singleton.2 ⟨rfl, ?_, ?_, ?_⟩⟩
    · have : options.byteLimit ≤ Span.maxOffset := Nat.min_le_right _ _
      exact Nat.le_min.2 ⟨hb.le, this⟩
    · exact Nat.min_le_left _ _
    · exact fun hc => absurd rfl (hc options.byteLimit)
  have hwithin (item) (hi : item ∈ regions file 0 source.toList) :=
    (regions_fill file 0 source.toList item hi).within
      ((regions_tile file 0 source.toList).le.2 item.1 (List.mem_map_of_mem hi)).2.1
  constructor
  · refine List.Pairwise.sublist hs (List.pairwise_filterMap.2 ?_)
    refine (regions_pairwise file 0 source.toList).imp_of_mem fun {a b} ha hb hab e he e' he' => ?_
    have hae := (placed_of_region ha he).1
    have hbe := (placed_of_region hb he').1
    have := hwithin a ha
    rw [Error.Before, hae, hbe]
    omega
  · intro error he
    obtain ⟨item, hi, he⟩ := List.mem_filterMap.1 (hs.subset he)
    obtain ⟨hspan, hfile⟩ := placed_of_region hi he
    have hb := regions_isBoundary (List.nil_append _).symm item hi
    have hw := hwithin item hi
    rw [← hspan] at hb hw
    refine ⟨hfile, by omega, ?_, fun _ => hb⟩
    have := hb.2.le
    rwa [Text.size_toList] at this

end Tokens

/-- What the header or a statement fails with lies in the source. -/
theorem Parse.Fails.placed {source file : String} {options : Options} {tokens : Tokens}
    (ht : Tokens.ofSource source file options = .ok tokens) {strict : Bool} {error : Error}
    {s s' : State} (h : Fails (.standard file options) strict tokens.tokens error s s') :
    error.Placed source file := by
  have ho := Tokens.ofSource_inOrder ht
  have hspan := (Tokens.ofSource_lexed ht).span_le
  rw [Nat.zero_add, Text.size_toList] at hspan
  have hp : (State.start tokens.tokens).tokens = tokens.tokens.drop 0 := by
    rw [State.start_tokens, State.ended_of_inOrder ho, List.drop_zero]
  obtain ⟨first, -, -, opening, failed, hle, hopening, hfailed, herror⟩ :=
    h.reaches rfl ho (fun token hm => (hspan token hm).1) (h.kept.1.toGrown.drop hp)
  have hmem := List.mem_of_getElem? hfailed
  have hstart := ho.start_le_of_le hle hopening hfailed
  have hstop := hspan failed hmem
  refine ⟨h.file, ?_, ?_, fun _ => ?_⟩
  · rw [herror]
    dsimp only
    omega
  · rw [herror]
    exact hstop.2
  · rw [herror]
    exact ⟨(Tokens.isBoundary_of_mem ht (List.mem_of_getElem? hopening)).1,
      (Tokens.isBoundary_of_mem ht hmem).2⟩

theorem Error.Placed.diagnostic? {source file : String} {error : Error}
    (h : error.Placed source file) : error.diagnostic?.isSome := by
  simp [Error.diagnostic?, Span.length?, h.le]

/-- The errors of a source come one behind the other, name the file, and lie in the source.  Their
spans have a length, so each is a diagnostic, and it can be drawn with a caret if its column, from
the indentation of its line on, is within the width of a report. -/
theorem Parsed.ofSource_errors (source file : String) (options : Options) :
    let errors := (ofSource source file options).errors
    errors.Pairwise (fun a b => a.span.start < b.span.start ∧ a.span.stop ≤ b.span.start) ∧
    ∀ error ∈ errors,
      error.file = some file ∧ error.span.start ≤ error.span.stop ∧
      error.span.stop ≤ source.utf8ByteSize ∧
      ((∀ max, error.cause ≠ .limitExceeded .bytes max) →
        Text.IsBoundary source.toList error.span.start ∧
          Text.IsBoundary source.toList error.span.stop) ∧
      error.diagnostic?.isSome ∧
      ((Report.caret? error source file).isSome ↔
        Report.arrowWidth (Text.placeOf source error.span.start) ≤ Report.maxWidth) := by
  intro errors
  have hplaced : errors.Pairwise Error.Before ∧ ∀ error ∈ errors, error.Placed source file := by
    cases ht : Tokens.ofSource source file options with
    | error found =>
      have he : errors = found := by simp only [errors, ofSource, ht]
      rw [he]
      exact Tokens.ofSource_errors_placed ht
    | ok tokens =>
      have he : errors = (ofTokens tokens file options).errors := by
        simp only [errors, ofSource, ht]
      have hspan := (Tokens.ofSource_lexed ht).span_le
      rw [he]
      refine ⟨ofTokens_pairwise (Tokens.ofSource_inOrder ht) fun token hm => (hspan token hm).1,
        fun error hm => ?_⟩
      obtain ⟨s, s', hf⟩ := fails_of_ofTokens hm
      exact hf.placed ht
  refine ⟨hplaced.1, fun error hm => ?_⟩
  obtain ⟨hfile, hle, hstop, hboundary⟩ := hplaced.2 error hm
  exact ⟨hfile, hle, hstop, hboundary, (hplaced.2 error hm).diagnostic?,
    Report.caret?_isSome error source file⟩

/-- The error of a bracket that stands 65535 columns to the right cannot be drawn. -/
theorem Parsed.ofSource_out_of_reach :
    let source := String.ofList (indented 65535)
    ∃ error ∈ (ofSource source "wide.sm" {}).errors,
      Report.caret? error source "wide.sm" = none := by
  obtain ⟨error, he, hc⟩ := caret?_indented (show 65534 + 2 ≤ Span.maxOffset by decide) "wide.sm"
  refine ⟨error, he, ?_⟩
  have hwide : ¬ 65534 + 2 ≤ Report.maxWidth := by decide
  simpa using mt hc.1 hwide

end Smaug
