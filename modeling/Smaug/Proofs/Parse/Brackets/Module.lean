import Mathlib
import Smaug.Proofs.Parse.Brackets.Rules
import Smaug.Proofs.Parse.Reached
import Smaug.Proofs.Token.Cut

/-! # The end of a source in a bracket

The errors of a source are those of its header and of the statements that are tried in turn.  One
that is raised at the end of the source names the innermost bracket that is open there, counted from
the first token of the header or the statement.
-/

namespace Smaug

/-! ## Brackets that are open -/

theorem Token.mem_of_mem_nest {opened : List Token} {token other : Token}
    (h : token ∈ other.nest opened) : token = other ∨ token ∈ opened := by
  rw [nest] at h
  split at h
  · exact List.mem_cons.1 h
  split at h
  · exact .inr (List.mem_of_mem_tail h)
  · exact .inr h

theorem mem_of_mem_foldl_nest {opened tokens : List Token} {token : Token}
    (h : token ∈ tokens.foldl Token.nest opened) : token ∈ opened ∨ token ∈ tokens := by
  induction tokens generalizing opened with
  | nil => exact .inl h
  | cons first tokens ih =>
    rcases ih h with h | h
    · rcases Token.mem_of_mem_nest h with rfl | h
      · exact .inr List.mem_cons_self
      · exact .inl h
    · exact .inr (List.mem_cons_of_mem _ h)

theorem mem_of_mem_openBrackets {tokens : List Token} {token : Token}
    (h : token ∈ openBrackets tokens) : token ∈ tokens :=
  (mem_of_mem_foldl_nest h).resolve_left List.not_mem_nil

/-- An error at the end of a text is blamed on the innermost of the open brackets, and reaches from
there to the end.  Where no bracket is open, it is the end itself. -/
def Error.BlamesToEnd (error : Error) (size : Nat) : List Token → Prop
  | [] => error.cause = .unexpectedEnd ∧ error.span = .emptyAt size
  | opening :: _ => ∃ delimiter construct, opening.kind.opening? = some delimiter ∧
      error.cause = .unclosedDelimiter delimiter construct ∧
      error.span = ⟨opening.span.start, size⟩

theorem Error.Blames.toEnd {error : Error} {last : Token} {opened : List Token} {size : Nat}
    (h : error.Blames last opened) (hl : last.span = .emptyAt size)
    (hs : ∀ token ∈ opened, token.span.start ≤ token.span.stop ∧ token.span.stop ≤ size) :
    error.BlamesToEnd size opened := by
  cases opened with
  | nil => exact ⟨h.1, h.2.trans hl⟩
  | cons opening opened =>
    obtain ⟨delimiter, construct, hd, hc, hspan⟩ := h
    obtain ⟨hle, hle'⟩ := hs opening List.mem_cons_self
    refine ⟨delimiter, construct, hd, hc, ?_⟩
    rw [hspan, hl, Span.merge, Span.emptyAt, Nat.min_eq_left (hle.trans hle'),
      Nat.max_eq_right hle']

namespace Parse

inductive Due (setup : Setup) (strict : Bool) (tokens : List Token) : State → Prop
  | header (h : Parse.header setup (.start tokens) = .done first s) : Due setup strict tokens s
  | skipHeader (hs : strict = false)
      (h : Parse.header setup (.start tokens) = .stopped (.error error) s) :
      Due setup strict tokens (recover (State.start tokens).mark s)
  | statement (hd : Due setup strict tokens s) (ht : s.hasTokens)
      (h : (Rule.form .statement).parse setup s = .done i s') : Due setup strict tokens s'
  | skipStatement (hs : strict = false) (hd : Due setup strict tokens s) (ht : s.hasTokens)
      (h : (Rule.form .statement).parse setup s = .stopped (.error error) s')
      (hc : error.classify ≠ .resource) : Due setup strict tokens (recover s.mark s')

/-- The header or a statement is tried at a state, and fails with an error at another. -/
inductive Fails (setup : Setup) (strict : Bool) (tokens : List Token) :
    Error → State → State → Prop
  | header (h : Parse.header setup (.start tokens) = .stopped (.error error) s) :
      Fails setup strict tokens error (.start tokens) s
  | statement (hd : Due setup strict tokens s) (ht : s.hasTokens)
      (h : (Rule.form .statement).parse setup s = .stopped (.error error) s') :
      Fails setup strict tokens error s s'

section
variable {setup : Setup} {strict : Bool} {tokens : List Token} {s s' : State} {error : Error}

theorem kept_of_stopped {step : Parse α} [Keeps step]
    (h : step setup s = .stopped (.error error) s') : Kept s s' := by
  have hk := keeps step setup s
  rw [h] at hk
  exact hk

theorem Due.kept (h : Due setup strict tokens s) : Kept (.start tokens) s := by
  induction h with
  | header h => exact kept_of_done h
  | skipHeader _ h => exact (recover_kept (kept_of_stopped h).toGrown).1
  | statement _ _ h ih => exact ih.trans (kept_of_done h)
  | skipStatement _ _ _ h _ ih => exact ih.trans (recover_kept (kept_of_stopped h).toGrown).1

theorem Fails.kept (h : Fails setup strict tokens error s s') :
    Kept (.start tokens) s ∧ Kept s s' := by
  cases h with
  | header h => exact ⟨.refl _, kept_of_stopped h⟩
  | statement hd _ h => exact ⟨hd.kept, kept_of_stopped h⟩

/-- The errors of a module are those that its statements fail with. -/
theorem fails_of_topLevel {turns : Nat} {ids : Array NodeId} {errors : Array Error}
    (hd : Due setup strict tokens s)
    (he : error ∈ (topLevel setup strict turns s ids errors).errors) :
    error ∈ errors ∨ ∃ s s', Fails setup strict tokens error s s' := by
  induction turns generalizing s ids errors with
  | zero => exact .inl he
  | succ turns ih =>
    cases ht : s.hasTokens with
    | false =>
      rw [topLevel_end ht] at he
      exact .inl he
    | true =>
      cases ho : (Rule.form .statement).parse setup s with
      | done id s₁ =>
        rw [topLevel_statement ht ho] at he
        exact ih (hd.statement ht ho) he
      | stopped why s₁ =>
        cases why with
        | error error' =>
          have hpush (h : error ∈ errors.push error') :
              error ∈ errors ∨ ∃ s s', Fails setup strict tokens error s s' := by
            rcases Array.mem_push.1 h with h | rfl
            · exact .inl h
            · exact .inr ⟨s, s₁, .statement hd ht ho⟩
          by_cases hc : error'.classify = .resource
          · rw [topLevel_limit ht ho hc] at he
            exact hpush he
          · cases strict with
            | true =>
              simp only [topLevel, ht, if_true, ho, hc, if_false] at he
              exact hpush he
            | false =>
              rw [topLevel_recover ht ho hc] at he
              exact (ih (hd.skipStatement rfl ht ho hc) he).elim hpush .inr
        | missingNode =>
          simp only [topLevel, ht, if_true, ho] at he
          exact .inl he
        | exhausted =>
          simp only [topLevel, ht, if_true, ho] at he
          exact .inl he

theorem fails_of_ofTokens {tokens : Tokens} {file : String} {options : Options}
    (he : error ∈ (Parsed.ofTokens tokens file options).errors) :
    ∃ s s', Fails (.standard file options) options.isStrict tokens.tokens error s s' := by
  unfold Parsed.ofTokens at he
  cases ho : header (.standard file options) (State.start tokens.tokens) with
  | done first s =>
    simp only [ho] at he
    exact (fails_of_topLevel (.header ho) (Array.mem_toList_iff.1 he)).resolve_left (by simp)
  | stopped why s =>
    simp only [ho] at he
    cases why with
    | error error' =>
      have hf : Fails (.standard file options) options.isStrict tokens.tokens error' _ s :=
        .header ho
      cases hs : options.isStrict with
      | true =>
        simp only [hs, if_true, List.mem_singleton] at he
        exact ⟨_, _, he ▸ hs ▸ hf⟩
      | false =>
        simp only [hs, Bool.false_eq_true, if_false] at he
        rcases fails_of_topLevel (.skipHeader rfl ho) (Array.mem_toList_iff.1 he) with h | h
        · obtain rfl : error = error' := by simpa using h
          exact ⟨_, _, hs ▸ hf⟩
        · exact h
    | missingNode => cases he
    | exhausted => cases he

/-- Nothing is ahead of the token that ends the input. -/
theorem ahead_of_end {start : Nat} (ho : InOrder start tokens) (hs : s.tokens <:+ tokens)
    (ht : s.hasTokens = false) : s.ahead = [] := by
  obtain ⟨before, rfl⟩ := hs
  have hk : s.current.kind = .eof := by simpa [State.hasTokens, State.kind] using ht
  have hlast := ((ho.drop (List.cons_ne_nil _ _)).kind_eq_eof
    (show s.tokens[0]? = some s.current from rfl)).1 hk
  simpa [State.tokens] using hlast

/-- An error at the end of the input is blamed on the brackets open after the tokens of the header
or statement that fails. -/
theorem Fails.blames (hsetup : setup.table = .standard)
    (h : Fails setup strict tokens error s s') (hc : error.classify ≠ .resource)
    (hs : s'.hasTokens = false) (hn : s'.ahead = []) :
    error.Blames s'.current (openBrackets s.tokens) := by
  have he := (State.start_ended tokens).grow h.kept.1.toGrown
  have hnests : (.stopped (.error error) s' : Outcome NodeId).Nests id id s := by
    cases h with
    | header h =>
      have hb := balances Parse.header hsetup he
      rw [h] at hb
      exact hb.stopped
    | statement _ _ h =>
      have hb := balances (Rule.form .statement).parse hsetup he
      rw [h] at hb
      exact hb
  obtain ⟨inner, hblames, hopen⟩ := hnests hs hc
  have hk : s'.current.kind = .eof := by simpa [State.hasTokens, State.kind] using hs
  have hend (opened : List Token) : s'.openAtEnd opened = opened := by
    simp [State.openAtEnd, State.tokens, hn, Token.nest, hk, Token.Kind.opening?,
      Token.Kind.isClosing]
  have hinner : openBrackets s.tokens = inner := by
    have h := hopen []
    rwa [hend, List.append_nil] at h
  rwa [hinner]

end
end Parse

open Parse

/-- Every error of a source is one that its header or a statement fails with.  If that is at the end
of the source, the error is blamed on the innermost of the brackets that are open after the tokens
from the first one of the header or the statement on. -/
theorem Parsed.ofSource_unclosed {source file : String} {options : Options} {tokens : Tokens}
    (ht : Tokens.ofSource source file options = .ok tokens) :
    let setup := Setup.standard file options
    (∀ error ∈ (ofSource source file options).errors,
      ∃ s s', Fails setup options.isStrict tokens.tokens error s s') ∧
    ∀ error s s', Fails setup options.isStrict tokens.tokens error s s' →
      s.tokens <:+ tokens.tokens ∧
        (error.classify ≠ .resource → s'.hasTokens = false →
          error.BlamesToEnd source.utf8ByteSize (openBrackets s.tokens)) := by
  have ho := Tokens.ofSource_inOrder ht
  have hl := Tokens.ofSource_lexed ht
  have hlast := hl.getLast?
  have hspan := hl.span_le
  rw [Nat.zero_add, Text.size_toList] at hlast hspan
  rw [ofSource_eq_ofTokens ht]
  refine ⟨fun error he => fails_of_ofTokens he, fun error s s' h => ?_⟩
  have hstart : (State.start tokens.tokens).tokens = tokens.tokens := by
    rw [State.start_tokens, State.ended_of_inOrder ho]
  have hsuffix {s s' : State} (hk : Kept s s') : s'.tokens <:+ s.tokens := by
    obtain ⟨passed, hp, -⟩ := hk.tokens
    exact ⟨passed, hp.symm⟩
  have hs : s.tokens <:+ tokens.tokens := hstart ▸ hsuffix h.kept.1
  have hs' : s'.tokens <:+ tokens.tokens := (hsuffix h.kept.2).trans hs
  refine ⟨hs, fun hc hend => ?_⟩
  have hn := ahead_of_end ho hs' hend
  have hcurrent : s'.current = .endAt (.emptyAt source.utf8ByteSize) := by
    obtain ⟨before, hb⟩ := hs'
    rw [← hb, State.tokens, hn, List.getLast?_concat] at hlast
    exact Option.some_inj.1 hlast
  exact (h.blames rfl hc hend hn).toEnd (by rw [hcurrent]; rfl)
    fun token hm => hspan token (hs.mem (mem_of_mem_openBrackets hm))

theorem Parsed.ofSource_unclosed_paren :
    let tokens : Tokens :=
      { tokens := [⟨.doWord, "do", ⟨0, 2⟩⟩, ⟨.openBracket, "[", ⟨3, 4⟩⟩, ⟨.openParen, "(", ⟨4, 5⟩⟩,
          ⟨.identifier, "a", ⟨5, 6⟩⟩, .endAt (.emptyAt 6)]
        trivia := #[⟨.whitespace, ⟨2, 3⟩⟩] }
    let s := State.start tokens.tokens
    Tokens.ofSource "do [(a" "open.sm" {} = .ok tokens ∧
      ∃ error s', Fails (.standard "open.sm" {}) false tokens.tokens error s s' ∧
        error.classify ≠ .resource ∧ s'.hasTokens = false ∧
        error.BlamesToEnd 6 (openBrackets s.tokens) := by
  intro tokens s
  have ht : Tokens.ofSource "do [(a" "open.sm" {} = .ok tokens := by decide +kernel
  let error : Error :=
    { cause := .unclosedDelimiter '(' "parenthesized expression"
      span := ⟨4, 6⟩
      expected := [.token .comma, .token .closeParen]
      file := some "open.sm" }
  let s' : State :=
    { current := .endAt (.emptyAt 6)
      ahead := []
      nodes := #[⟨.identifier (.single ⟨"a", false, ⟨5, 6⟩⟩), ⟨5, 6⟩⟩]
      lastStop := 6 }
  have hstopped : (Rule.form .statement).parse (.standard "open.sm" {}) s =
      .stopped (.error error) s' := by cbv
  have hf : Fails (.standard "open.sm" {}) false tokens.tokens error s s' :=
    .statement (.header (header_none rfl)) rfl hstopped
  have hc : error.classify ≠ .resource := by decide
  exact ⟨ht, error, s', hf, hc, rfl, ((ofSource_unclosed ht).2 error s s' hf).2 hc rfl⟩

end Smaug
