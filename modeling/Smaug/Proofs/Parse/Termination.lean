import Mathlib
import Smaug.Proofs.Parse.Trim.Module

/-! # Parses come to an end

Every turn of a loop passes a token.  A rule that calls another has passed a token before, or the
other is of lower rank, so the tokens left bound how deep calls nest, whatever nesting of
expressions is allowed.  And what a module is parsed to depends on nothing behind the first token
that ends the input.
-/

namespace Smaug

namespace Parse

open Grammar

/-- What every call makes less: the tokens left, or at one token the rank of the rule. -/
def callMeasure (call : Rule × State) : Nat ×ₗ Nat := toLex (call.2.remaining, call.1.rank)

theorem callMeasure_lt {called caller : Rule × State} :
    callMeasure called < callMeasure caller ↔
      called.2.remaining < caller.2.remaining ∨
        called.2.remaining = caller.2.remaining ∧ called.1.rank < caller.1.rank :=
  Prod.Lex.toLex_lt_toLex

/-- A call that can be made in a parse of the language, with fuel enough for those it leads to. -/
structure Callable (fuel : Nat) (call : Rule × State) : Prop where
  ended : call.2.Ended
  fits : Fits call.2 call.1
  left : ∀ left ∈ call.1.left, left < call.2.nodes.size
  fuel : 4 * call.2.remaining + call.1.rank < fuel

theorem Callable.isSettled {fuel : Nat} {call : Rule × State} (h : Callable fuel call)
    {setup : Setup} (ht : setup.table = .standard) :
    (Rule.runWith fuel call.1 setup call.2).IsSettled :=
  runWith_isSettled ht h.ended h.fits h.left h.fuel

/-! ## A call that is not answered -/

section
variable {run : Rule → Parse NodeId} {called : Rule × State}

theorem unanswered_done {rule : Rule} {setup : Setup} {s s' : State} {id : NodeId}
    (h : unanswered run called rule setup s = .done id s') : run rule setup s = .done id s' := by
  by_cases hc : (rule, s) = called
  · subst hc
    rw [unanswered_called run (rule, s)] at h
    cases h
  · rwa [unanswered_ne hc] at h

instance [hp : Passing run] : Passing (unanswered run called) :=
  ⟨fun ht hf hc he h => hp.passes ht hf hc he (unanswered_done h)⟩

instance [ha : Adds run] : Adds (unanswered run called) :=
  ⟨fun ht hf hl h => ha.adds ht hf hl (unanswered_done h)⟩

end

/-- A rule calls only rules that can be called there, past a token or of lower rank. -/
theorem Calls.below {setup : Setup} (ht : setup.table = .standard) {n : Nat}
    {caller called : Rule × State} (hc : Callable (n + 1) caller)
    (h : Calls setup (Rule.runWith n) caller called) :
    Callable n called ∧ callMeasure called < callMeasure caller := by
  by_contra hne
  obtain ⟨rule, s⟩ := caller
  -- Were the call another one, then all that the rule depends on would be answered.
  have answered {rule' : Rule} {s' : State} {setup : Setup} (ht : setup.table = .standard)
      (hf : Fits s' rule') (hl : ∀ left ∈ rule'.left, left < s'.nodes.size) (he : s'.Ended)
      (hlt : s'.remaining < s.remaining ∨ s'.remaining ≤ s.remaining ∧ rule'.rank < rule.rank) :
      (unanswered (Rule.runWith n) called rule' setup s').IsSettled := by
    have hfuel := hc.fuel
    have hrank := rule'.rank_le
    have hcall : Callable n (rule', s') := ⟨he, hf, hl, by dsimp only at hfuel ⊢; omega⟩
    have hcalled : (rule', s') ≠ called := by
      rintro rfl
      exact hne ⟨hcall, callMeasure_lt.2 (by dsimp only; omega)⟩
    rw [unanswered_ne hcalled]
    exact hcall.isSettled ht
  obtain ⟨room, hroom⟩ : ∃ room, s.remaining = room + 1 :=
    ⟨_, (Nat.succ_pred_eq_of_pos s.remaining_pos).symm⟩
  have : Serves room (unanswered (Rule.runWith n) called) :=
    ⟨fun ht hf hl hs => answered ht hf hl hs.ended (.inl (by have := hs.room; omega))⟩
  have hbody : (rule.body (unanswered (Rule.runWith n) called) setup s).IsSettled :=
    ruleBody_isSettled ht ⟨hc.ended, hroom.le⟩ hc.fits hc.left fun hk hf hl hs =>
      answered ht hf hl hs.ended (.inr ⟨by have := hs.room; omega, hk⟩)
  obtain ⟨s', hs'⟩ := h
  rw [hs'] at hbody
  exact hbody

theorem Leads.callable {setup : Setup} (ht : setup.table = .standard) {n m : Nat}
    {caller last : Rule × State} (h : Leads setup n caller m last) (hc : Callable n caller) :
    Callable m last := by
  induction h with
  | refl => exact hc
  | call h _ ih => exact ih (h.below ht hc).1

theorem StatementAt.callable {tokens : Tokens} {file : String} {options : Options} {s : State}
    (h : StatementAt tokens file options s) :
    Callable (Rule.fuel (.standard file options) s) (.form .statement, s) where
  ended := h.errors.1
  fits := trivial
  left := List.forall_mem_nil _
  fuel := by
    have hr : (Rule.form .statement).rank = 1 := rfl
    dsimp only
    unfold Rule.fuel
    omega

/-- One turn of the driver passes a token, whether a statement is read or given up. -/
theorem StatementAt.passes {tokens : Tokens} {file : String} {options : Options} {s : State}
    (h : StatementAt tokens file options s) (ht : s.hasTokens) :
    (∃ id s', (Rule.form .statement).parse (.standard file options) s = .done id s' ∧
        s'.remaining < s.remaining) ∨
      ∃ error s',
        (Rule.form .statement).parse (.standard file options) s = .stopped (.error error) s' ∧
        (recover s.mark s').remaining < s.remaining := by
  have he := h.errors.1
  have hset : ((Rule.form .statement).parse (.standard file options) s).IsSettled :=
    parse_isSettled rfl he trivial (List.forall_mem_nil _)
  have hk := keeps (Rule.form .statement).parse (.standard file options) s
  cases ho : (Rule.form .statement).parse (.standard file options) s with
  | done id s' =>
    exact .inl ⟨id, s', rfl, Parse.passes (Rule.form .statement).parse rfl he ho⟩
  | stopped why s' =>
    rw [ho] at hset hk
    cases why with
    | error error => exact .inr ⟨error, s', rfl, recover_remaining he ht hk⟩
    | missingNode => exact hset.elim
    | exhausted => exact hset.elim

end Parse

open Parse

/-- The parse of a module comes to an end, and looks at nothing behind the end of its input: every
turn of the driver and of every loop passes a token, every call is made past a token or of a rule of
lower rank, no rule ends but with a node or an error, and the tokens behind the first that ends the
input, or the lack of one that does, change nothing. -/
theorem Parsed.ofTokens_terminates (tokens : Tokens) (file : String) (options : Options) :
    let setup := Setup.standard file options
    let start := State.start tokens.tokens
    (header setup start).IsSettled ∧
    (∀ s, StatementAt tokens file options s → s.hasTokens →
      (∃ id s', (Rule.form .statement).parse setup s = .done id s' ∧ s'.remaining < s.remaining) ∨
      ∃ error s', (Rule.form .statement).parse setup s = .stopped (.error error) s' ∧
        (recover s.mark s').remaining < s.remaining) ∧
    (∀ fuel (α β : Type) (turn : α → Parse (Turn α β)), LoopTurn (Rule.runWith fuel) turn →
      ∀ a a' s s', Grown start s → turn a setup s = .done (.again a') s' →
        s'.remaining < s.remaining) ∧
    (∀ s, StatementAt tokens file options s → ∀ fuel caller called,
      Leads setup (Rule.fuel setup s) (.form .statement, s) (fuel + 1) caller →
      Calls setup (Rule.runWith fuel) caller called →
      (Rule.runWith fuel called.1 setup called.2).IsSettled ∧
        callMeasure called < callMeasure caller) ∧
    (∀ before stop rest rest', tokens.tokens = before ++ stop :: rest → stop.kind = .eof →
      ofTokens { tokens with tokens := before ++ stop :: rest' } file options =
        ofTokens tokens file options) ∧
    ((∀ token ∈ tokens.tokens, token.kind ≠ .eof) →
      ofTokens
          { tokens with
            tokens := tokens.tokens ++ [.endAt (.emptyAt (stopAfter 0 tokens.tokens))] }
          file options =
        ofTokens tokens file options) := by
  intro setup start
  have he := State.start_ended tokens.tokens
  refine ⟨header_isSettled rfl he, fun s hs ht => hs.passes ht, ?_, ?_, ?_,
    ofTokens_endAt tokens file options⟩
  · intro fuel α β turn hturn a a' s s' hs hd
    exact hturn.passes rfl (he.grow hs) hd
  · intro s hs fuel caller called hl hc
    have hcaller := hl.callable rfl hs.callable
    obtain ⟨hcalled, hlt⟩ := hc.below rfl hcaller
    exact ⟨hcalled.isSettled rfl, hlt⟩
  · intro before stop rest rest' htokens hk
    obtain ⟨_, trivia⟩ := tokens
    subst htokens
    exact ofTokens_behind ⟨_, trivia⟩ file options hk

set_option maxRecDepth 20000 in
theorem Parsed.ofTokens_terminates_import :
    let read : List Token :=
      [⟨.importWord, "import", ⟨0, 6⟩⟩, ⟨.identifier, "a", ⟨7, 8⟩⟩, ⟨.dot, ".", ⟨8, 9⟩⟩,
        ⟨.identifier, "b", ⟨9, 10⟩⟩]
    let stop : Token := .endAt (.emptyAt 10)
    let unread : List Token := [⟨.doWord, "do", ⟨11, 13⟩⟩, ⟨.openParen, "(", ⟨13, 14⟩⟩]
    let tokens : Tokens := ⟨read ++ stop :: unread, #[]⟩
    let start := State.start tokens.tokens
    let dot := start.advance.advance
    (∃ id s', (Rule.form .statement).parse (.standard "a.sm" {}) start = .done id s' ∧
        s'.remaining < start.remaining) ∧
      (∃ names s', collectTurn nextName [] (.standard "a.sm" {}) dot = .done (.again names) s' ∧
        s'.remaining < dot.remaining) ∧
      callMeasure (.form .importStatement, start) < callMeasure (.form .statement, start) ∧
      ofTokens ⟨read ++ [stop], #[]⟩ "a.sm" {} = ofTokens tokens "a.sm" {} ∧
      ofTokens ⟨read ++ [stop], #[]⟩ "a.sm" {} = ofTokens ⟨read, #[]⟩ "a.sm" {} := by
  intro read stop unread tokens start dot
  obtain ⟨-, hdriver, hloops, hcalls, hbehind, -⟩ := ofTokens_terminates tokens "a.sm" {}
  have hstart : StatementAt tokens "a.sm" {} start := .first rfl
  have hdot : Grown start dot := ((Kept.advance _).trans (Kept.advance _)).toGrown
  obtain ⟨names, s₁, hname⟩ : ∃ names s', collectTurn nextName [] (.standard "a.sm" {}) dot =
      .done (.again names) s' := ⟨_, _, rfl⟩
  have hcall (run : Rule → Parse NodeId) : Calls (.standard "a.sm" {}) run
      (.form .statement, start) (.form .importStatement, start) :=
    ⟨_, unanswered_called run (.form .importStatement, start) _⟩
  have hlast : ∀ token ∈ read, token.kind ≠ .eof := by decide
  refine ⟨(hdriver start hstart rfl).resolve_right ?_, ⟨names, s₁, hname, ?_⟩, ?_, ?_, ?_⟩
  · rintro ⟨error, s', ho, -⟩
    cases ho
  · exact hloops 0 _ _ _ .name [] names dot s₁ hdot hname
  · exact (hcalls start hstart 4239 _ _ .refl (hcall _)).2
  · exact hbehind read stop unread [] rfl rfl
  · exact (ofTokens_terminates ⟨read, #[]⟩ "a.sm" {}).2.2.2.2.2 hlast

end Smaug
