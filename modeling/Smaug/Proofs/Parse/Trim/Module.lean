import Mathlib
import Smaug.Proofs.Parse.Depth.Limit
import Smaug.Proofs.Parse.Trim.Rules

/-! # Modules without what stands behind the end

What a module is parsed to depends only on the tokens up to the first that ends the input: not even
recovery passes that token, or counts those behind it.
-/

namespace Smaug

namespace Parse

theorem uptoEnd_passed {passed tokens : List Token} (h : ∀ token ∈ passed, token.kind ≠ .eof) :
    uptoEnd (passed ++ tokens) = passed ++ uptoEnd tokens := by
  induction passed with
  | nil => rfl
  | cons token passed ih =>
    obtain ⟨ht, hp⟩ := List.forall_mem_cons.1 h
    rw [List.cons_append, uptoEnd, if_neg ht, ih hp, List.cons_append]

/-! ## Recovery -/

theorem skipStatement_trim {n n' : Nat} {s : State} (he : s.Ended) (hn : s.trim.remaining ≤ n)
    (hn' : s.remaining ≤ n') : skipStatement n s.trim = (skipStatement n' s).trim := by
  induction n generalizing n' s with
  | zero => exact absurd hn (Nat.not_le_of_lt s.trim.remaining_pos)
  | succ n ih =>
    obtain ⟨n', rfl⟩ : ∃ m, n' = m + 1 := ⟨n' - 1, by have := s.remaining_pos; omega⟩
    unfold skipStatement
    rw [State.trim_kind]
    split
    iterate 3 rfl
    · rw [s.trim_advance]
    · rename_i hk _ _ _
      have ht : s.hasTokens := by simpa [State.hasTokens] using hk
      have hlt := he.remaining_advance ht
      have hlt' := he.trim.remaining_advance ht
      rw [← s.trim_advance] at hlt' ⊢
      exact ih (he.advance ht).2 (by omega) (by omega)

/-- Whether a statement has passed a token can be told without those behind the end. -/
theorem length_ahead_trim {s s' : State} (h : Grown s s') :
    s'.trim.ahead.length = s.trim.ahead.length ↔ s'.ahead.length = s.ahead.length := by
  obtain ⟨passed, ht, hp, -⟩ := h.tokens
  have htrim : s.trim.tokens = passed ++ s'.trim.tokens := by
    rw [State.trim_tokens, State.trim_tokens, ht, uptoEnd_passed hp]
  have hl := congrArg List.length ht
  have hl' := congrArg List.length htrim
  simp only [State.tokens, List.length_append, List.length_cons] at hl hl'
  omega

theorem recover_trim {s s' : State} (he : s.Ended) (h : Grown s s') :
    recover s.trim.mark s'.trim = (recover s.mark s').trim := by
  have hd : s'.trim.discard s.trim.mark = (s'.discard s.mark).trim := rfl
  have hk : Kept s (s'.discard s.mark) := (State.discard_mark h).1
  have hl := length_ahead_trim hk.toGrown
  have hed := he.grow hk.toGrown
  unfold recover
  rw [hd]
  generalize s'.discard s.mark = d at hl hed
  change (if d.trim.ahead.length = s.trim.ahead.length ∧ d.trim.hasTokens then _ else _) =
    State.trim (if d.ahead.length = s.ahead.length ∧ d.hasTokens then _ else _)
  simp only [hl, State.trim_hasTokens]
  split
  · rename_i hc
    rw [State.trim_kind, ← d.trim_advance]
    split
    · rfl
    · exact skipStatement_trim (hed.advance hc.2).2 (Nat.le_refl _) (Nat.le_refl _)
  · exact skipStatement_trim hed (Nat.le_refl _) (Nat.le_refl _)

/-! ## Statements -/

def Progress.trim (progress : Progress) : Progress :=
  { progress with state := progress.state.map State.trim }

theorem topLevel_trim {setup : Setup} (htable : setup.table = .standard) (strict : Bool)
    {turns turns' : Nat} {s : State} (he : s.Ended) (hn : s.trim.remaining ≤ turns)
    (hn' : s.remaining ≤ turns') (ids : Array NodeId) (errors : Array Error) :
    topLevel setup strict turns s.trim ids errors =
      (topLevel setup strict turns' s ids errors).trim := by
  induction turns generalizing turns' s ids errors with
  | zero => exact absurd hn (Nat.not_le_of_lt s.trim.remaining_pos)
  | succ turns ih =>
    obtain ⟨turns', rfl⟩ : ∃ m, turns' = m + 1 :=
      ⟨turns' - 1, by have := s.remaining_pos; omega⟩
    cases ht : s.hasTokens with
    | false =>
      rw [topLevel_end ht, topLevel_end (s := s.trim) ht]
      rfl
    | true =>
      have hset : ((Rule.form .statement).parse setup s).IsSettled :=
        parse_isSettled htable he trivial (List.forall_mem_nil _)
      have hk := keeps (Rule.form .statement).parse setup s
      have ho : (Rule.form .statement).parse setup s.trim = _ :=
        parse_trim htable he trivial (List.forall_mem_nil _)
      have hk' := keeps (Rule.form .statement).parse setup s.trim
      cases hs : (Rule.form .statement).parse setup s with
      | done id s' =>
        have hlt := passes (Rule.form .statement).parse htable he hs
        rw [hs] at ho hk
        have hlt' := passes (Rule.form .statement).parse htable he.trim ho
        rw [topLevel_statement ht hs, topLevel_statement (s := s.trim) ht ho]
        have hle : s'.trim.remaining < s.trim.remaining := hlt'
        exact ih (he.grow (Kept.toGrown hk)) (by omega) (by omega) _ _
      | stopped why s' =>
        rw [hs] at ho hset hk
        cases why with
        | missingNode => exact absurd hset id
        | exhausted => exact absurd hset id
        | error error =>
          have ho : (Rule.form .statement).parse setup s.trim = .stopped (.error error) s'.trim :=
            ho
          by_cases hc : error.classify = .resource
          · rw [topLevel_limit ht hs hc, topLevel_limit (s := s.trim) ht ho hc]
            rfl
          · cases strict with
            | true =>
              have ht' : s.trim.hasTokens := ht
              simp only [topLevel, ht, ht', hs, ho, hc, if_true, if_false]
              rfl
            | false =>
              have hlt := recover_remaining he ht hk
              rw [ho] at hk'
              have hlt' := recover_remaining he.trim ht hk'
              have hrec := recover_trim he (Kept.toGrown hk)
              rw [topLevel_recover ht hs hc, topLevel_recover (s := s.trim) ht ho hc]
              rw [hrec] at hlt' ⊢
              exact ih (he.grow (recover_kept (Kept.toGrown hk)).1.toGrown) (by omega) (by omega)
                _ _

theorem moduleBody_trim {setup : Setup} (htable : setup.table = .standard) (strict : Bool)
    {s : State} (he : s.Ended) (errors : Array Error) :
    moduleBody setup strict s.trim errors = (moduleBody setup strict s errors).trim :=
  topLevel_trim htable strict he (Nat.le_refl _) (Nat.le_refl _) #[] errors

theorem header_trim {setup : Setup} (htable : setup.table = .standard) {s : State}
    (he : s.Ended) : header setup s.trim = (header setup s).trim :=
  (trims header header setup s).resolve_left fun h =>
    h.not_isSettled (header_isSettled htable he.trim)

theorem State.start_trim (tokens : List Token) :
    start (uptoEnd (ended tokens)) = (start tokens).trim := by
  obtain ⟨last, hl, hk⟩ := (start_ended tokens).trim
  obtain ⟨current, ahead, hs⟩ : ∃ current ahead, start tokens = { current, ahead } := by
    unfold start
    split <;> exact ⟨_, _, rfl⟩
  have htokens : ended (start tokens).trim.tokens = (start tokens).trim.tokens := by
    rw [ended, hl]
    exact if_pos hk
  rw [← start_tokens, ← trim_tokens, start, htokens, hs]
  rfl

end Parse

namespace Parsed

open Parse

theorem ofProgress_trim (file : String) (trivia : Array Trivia) (header : Option NodeId)
    (progress : Progress) :
    ofProgress file trivia header progress.trim = ofProgress file trivia header progress := by
  obtain ⟨_ | s, statements, errors⟩ := progress <;> rfl

/-- The tokens behind the first that ends the input are not looked at. -/
theorem ofTokens_uptoEnd (tokens : Tokens) (file : String) (options : Options) :
    ofTokens { tokens with tokens := uptoEnd (State.ended tokens.tokens) } file options =
      ofTokens tokens file options := by
  have he := State.start_ended tokens.tokens
  have hk := keeps header (.standard file options) (.start tokens.tokens)
  unfold ofTokens
  dsimp only
  rw [State.start_trim, header_trim rfl he]
  cases ho : Parse.header (.standard file options) (.start tokens.tokens) with
  | done first s =>
    rw [ho] at hk
    dsimp only [Outcome.trim]
    rw [moduleBody_trim rfl _ (he.grow (Kept.toGrown hk)), ofProgress_trim]
  | stopped why s =>
    rw [ho] at hk
    cases why with
    | error error =>
      have hg := (recover_kept hk.toGrown).1.toGrown
      dsimp only [Outcome.trim]
      rw [recover_trim he hk.toGrown, moduleBody_trim rfl _ (he.grow hg), ofProgress_trim]
    | missingNode => rfl
    | exhausted => rfl

theorem ofTokens_behind (tokens : Tokens) (file : String) (options : Options)
    {before rest rest' : List Token} {stop : Token} (h : stop.kind = .eof) :
    ofTokens { tokens with tokens := before ++ stop :: rest' } file options =
      ofTokens { tokens with tokens := before ++ stop :: rest } file options := by
  have hr (rest : List Token) :
      uptoEnd (State.ended (before ++ stop :: rest)) = uptoEnd (before ++ [stop]) := by
    unfold State.ended
    split
    · rename_i hn
      simp at hn
    · split
      · exact uptoEnd_append h
      · rw [List.append_assoc, List.cons_append]
        exact uptoEnd_append h
  rw [← ofTokens_uptoEnd, ← ofTokens_uptoEnd { tokens with tokens := before ++ stop :: rest }]
  dsimp only
  rw [hr, hr]

/-- Tokens that do not end the input are ended after the last of them. -/
theorem ofTokens_endAt (tokens : Tokens) (file : String) (options : Options)
    (h : ∀ token ∈ tokens.tokens, token.kind ≠ .eof) :
    ofTokens
        { tokens with
          tokens := tokens.tokens ++ [.endAt (.emptyAt (stopAfter 0 tokens.tokens))] }
        file options =
      ofTokens tokens file options := by
  have he : State.ended tokens.tokens =
      tokens.tokens ++ [.endAt (.emptyAt (stopAfter 0 tokens.tokens))] := by
    unfold State.ended stopAfter
    cases hl : tokens.tokens.getLast? with
    | none => simp [List.getLast?_eq_none_iff.1 hl]
    | some last => exact if_neg (h last (List.mem_of_getLast? hl))
  have hs : State.start (tokens.tokens ++ [.endAt (.emptyAt (stopAfter 0 tokens.tokens))]) =
      State.start tokens.tokens := by
    unfold State.start
    rw [he, State.ended, List.getLast?_concat]
    rfl
  unfold ofTokens
  dsimp only
  rw [hs]

end Parsed
end Smaug
