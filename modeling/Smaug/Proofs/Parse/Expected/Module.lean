import Mathlib
import Smaug.Proofs.Parse.Expected.Lookahead
import Smaug.Proofs.Parse.Modes
import Smaug.Proofs.Parse.Recovery
import Smaug.Proofs.Parse.Trim.Module

/-! # What the first error of a source expects

The first error of a source is that of the header, or of the first statement that fails.  Put there,
a token that meets an expected item is passed: the parse goes through the same header and statements
up to that token, and what it fails with, if anything, it fails with further on.
-/

namespace Smaug

/-- The tokens with another one at a place: in the stead of the token there, or before the one that
ends the input. -/
def putAt (tokens : List Token) (place : Nat) (token : Token) : List Token :=
  tokens.take place ++ token :: match tokens.drop place with
    | found :: rest => if found.kind = .eof then found :: rest else rest
    | [] => []

namespace Parse

/-- The statements from a state on are read up to one that fails with an error at another state. -/
inductive FailsFrom (setup : Setup) : State → Error → State → Prop
  | here (ht : s.hasTokens)
      (h : (Rule.form .statement).parse setup s = .stopped (.error error) s') :
      FailsFrom setup s error s'
  | later (ht : s.hasTokens) (h : (Rule.form .statement).parse setup s = .done i s₁)
      (hf : FailsFrom setup s₁ error s') : FailsFrom setup s error s'

inductive FailsFirst (setup : Setup) (tokens : List Token) (error : Error) (s : State) : Prop
  | header (h : Parse.header setup (.start tokens) = .stopped (.error error) s)
  | statement (h : Parse.header setup (.start tokens) = .done first s₁)
      (hf : FailsFrom setup s₁ error s)

section
variable {setup : Setup} {tokens : List Token} {s s' t t' : State} {error error' : Error}

theorem FailsFrom.grown (h : FailsFrom setup s error s') : Grown s s' := by
  induction h with
  | @here s _ _ _ h =>
    have hk := keeps (Rule.form .statement).parse setup s
    rw [h] at hk
    exact hk.grown
  | later _ h _ ih => exact (kept_of_done h).toGrown.trans ih

theorem FailsFirst.grown (h : FailsFirst setup tokens error s) : Grown (.start tokens) s := by
  cases h with
  | header h =>
    have hk := keeps Parse.header setup (.start tokens)
    rw [h] at hk
    exact hk.grown
  | statement h hf => exact (kept_of_done h).toGrown.trans hf.grown

theorem FailsFrom.raisedAt (htable : setup.table = .standard) (he : s.Ended)
    (h : FailsFrom setup s error s') : error.RaisedAt s'.current := by
  induction h with
  | @here s _ _ _ h =>
    have hset : ((Rule.form .statement).parse setup s).IsSettled :=
      parse_isSettled htable he trivial (List.forall_mem_nil _)
    rwa [h] at hset
  | later _ h _ ih => exact ih (he.grow (kept_of_done h).toGrown)

theorem FailsFirst.raisedAt (htable : setup.table = .standard)
    (h : FailsFirst setup tokens error s) : error.RaisedAt s.current := by
  have he := State.start_ended tokens
  cases h with
  | header h =>
    have hset := header_isSettled htable he
    rwa [h] at hset
  | statement h hf => exact hf.raisedAt htable (he.grow (kept_of_done h).toGrown)

/-- A parse fails at one of the tokens. -/
theorem FailsFirst.place (h : FailsFirst setup tokens error s)
    (ht : (State.start tokens).tokens = tokens) :
    ∃ place, s.tokens = tokens.drop place ∧ place + s.tokens.length = tokens.length := by
  obtain ⟨passed, hp, -⟩ := h.grown.tokens
  rw [ht] at hp
  refine ⟨passed.length, ?_, ?_⟩
  · rw [hp, List.drop_left]
  · rw [hp, List.length_append]

/-! ## The first error -/

theorem eq_of_singleton_prefix {more : List Error} (h : [error'] <+: error :: more) :
    error = error' :=
  (List.cons_prefix_cons.1 h).1.symm

/-- However the parse goes on, the error of a statement comes first. -/
theorem topLevel_fails {strict : Bool} (turns : Nat) (ids : Array NodeId) (ht : s.hasTokens)
    (h : (Rule.form .statement).parse setup s = .stopped (.error error) s') :
    [error] <+: (topLevel setup strict (turns + 1) s ids #[]).errors.toList := by
  by_cases hc : error.classify = .resource
  · rw [topLevel_limit ht h hc]
    exact List.prefix_refl _
  · cases strict with
    | true =>
      simp only [topLevel, ht, if_true, h, hc, if_false]
      exact List.prefix_refl _
    | false =>
      rw [topLevel_recover ht h hc]
      exact (topLevel_continues false turns).errors

theorem errors_of_topLevel {strict : Bool} {turns : Nat} {ids : Array NodeId} {more : List Error}
    (h : (topLevel setup strict turns s ids #[]).errors.toList = error :: more) :
    ∃ s', FailsFrom setup s error s' := by
  induction turns generalizing s ids with
  | zero => cases h
  | succ turns ih =>
    cases ht : s.hasTokens with
    | false =>
      rw [topLevel_end ht] at h
      cases h
    | true =>
      cases ho : (Rule.form .statement).parse setup s with
      | done id s₁ =>
        rw [topLevel_statement ht ho] at h
        obtain ⟨s', hf⟩ := ih h
        exact ⟨s', .later ht ho hf⟩
      | stopped why s₁ =>
        cases why with
        | error error' =>
          obtain rfl := eq_of_singleton_prefix (h ▸ topLevel_fails turns ids ht ho)
          exact ⟨s₁, .here ht ho⟩
        | missingNode | exhausted =>
          simp only [topLevel, ht, if_true, ho] at h
          cases h

theorem errors_of_ofTokens {tokens : Tokens} {file : String} {options : Options}
    {more : List Error} (h : (Parsed.ofTokens tokens file options).errors = error :: more) :
    ∃ s, FailsFirst (.standard file options) tokens.tokens error s := by
  unfold Parsed.ofTokens at h
  cases ho : header (.standard file options) (State.start tokens.tokens) with
  | done first s =>
    simp only [ho] at h
    obtain ⟨s', hf⟩ := errors_of_topLevel h
    exact ⟨s', .statement ho hf⟩
  | stopped why s =>
    simp only [ho] at h
    cases why with
    | error error' =>
      have hfirst : [error'] <+: error :: more := by
        rw [← h]
        cases options.isStrict with
        | true => exact List.prefix_refl _
        | false => exact (topLevel_continues false _).errors
      obtain rfl := eq_of_singleton_prefix hfirst
      exact ⟨s, .header ho⟩
    | missingNode | exhausted => cases h

/-! ## Following the statements -/

theorem State.trim_eq_iff : s.trim = s ↔ uptoEnd s.tokens = s.tokens := by
  rw [← State.trim_tokens]
  refine ⟨fun h => by rw [h], fun h => ?_⟩
  obtain ⟨current, ahead, nodes, depth, lastStop⟩ := s
  exact congrArg (State.mk current · nodes depth lastStop) (List.cons_eq_cons.1 h).2

theorem Grown.trim_eq (h : Grown s s') (hs : s.trim = s) : s'.trim = s' := by
  obtain ⟨passed, ht, hp, -⟩ := h.tokens
  rw [State.trim_eq_iff] at hs ⊢
  rw [ht, uptoEnd_passed hp] at hs
  exact List.append_cancel_left hs

variable {f : Fork}

/-- More calls than are needed make no difference. -/
theorem parse_eq_runWith (htable : setup.table = .standard) (he : s.Ended) (hs : s.trim = s)
    {n : Nat} (hn : Rule.fuel setup s ≤ n) :
    (Rule.form .statement).parse setup s = Rule.runWith n (.form .statement) setup s := by
  have hset : ((Rule.form .statement).parse setup s).IsSettled :=
    parse_isSettled htable he trivial (List.forall_mem_nil _)
  have ho := (runWith_trims hn (.form .statement)).outcome setup s
  rw [hs] at ho
  have ho := ho.resolve_left fun h => h.not_isSettled hset
  have hk := keeps (Rule.runWith n (.form .statement)) setup s
  refine ho.trans ?_
  cases hd : Rule.runWith n (.form .statement) setup s with
  | done i s' =>
    rw [hd] at hk
    rw [Outcome.trim, Grown.trim_eq (Kept.toGrown hk) hs]
  | stopped why s' =>
    rw [hd] at hk
    rw [Outcome.trim, hk.grown.trim_eq hs]

theorem statement_follows (htable : setup.table = .standard) (hs : Forked f s s')
    (htrim : s.trim = s) : ((Rule.form .statement).parse setup s).Follows f
      ((Rule.form .statement).parse setup s') := by
  have hle : Rule.fuel setup s ≤ Rule.fuel setup s' := by
    have := hs.remaining_le
    unfold Rule.fuel
    rw [hs.depth]
    omega
  have hrule : Follows f (Rule.runWith (Rule.fuel setup s') (.form .statement))
      (Rule.runWith (Rule.fuel setup s') (.form .statement)) := inferInstance
  rw [parse_eq_runWith htable hs.ended htrim hle]
  exact hrule.follows htable hs

omit tokens in
theorem header_passed (he : s.Ended) (hm : s.current.isWord "module") :
    (Parse.header setup s).Passed s.remaining := by
  refine passed_look ?_
  rw [bind_of_done (eatWord_done.2 ⟨hm.symm, (if_pos hm).symm⟩)]
  exact (keeps _ setup _).passed (he.remaining_advance (State.hasTokens_of_isWord hm))

theorem header_follows (htable : setup.table = .standard) (hs : Forked f s s') :
    (header setup s).Follows f (header setup s') := by
  rcases hs.cases with ha | hb
  · cases hm : s.current.isWord "module" with
    | true =>
      have hp : (header setup s).Passed s.remaining := header_passed hs.ended hm
      rw [show s.remaining = _ from ha] at hp
      exact hs.apart ha (.inl hp.excused)
    | false =>
      cases hm' : s'.current.isWord "module" with
      | true => exact hs.apart ha (.inr (header_passed hs.ended' hm'))
      | false =>
        rw [header_none hm, header_none hm']
        exact .done hs
  · refine (followsBefore_look (fun hs hb => ?_) fun start => ?_).follows htable hs hb
    · rw [hs.current hb]
    · exact followsBefore _ _

def Outcome.LeadsTo (error : Error) (t : State) : Outcome α → Prop
  | .done _ s => Grown s t
  | .stopped (.error e) s => e = error ∧ s = t
  | .stopped .. => False

theorem FailsFrom.leadsTo (h : FailsFrom setup s error t) :
    ((Rule.form .statement).parse setup s).LeadsTo error t := by
  cases h with
  | here _ h =>
    rw [h]
    exact ⟨rfl, rfl⟩
  | later _ h hf =>
    rw [h]
    exact hf.grown

theorem FailsFirst.leadsTo (h : FailsFirst setup tokens error t) :
    (Parse.header setup (.start tokens)).LeadsTo error t := by
  cases h with
  | header h =>
    rw [h]
    exact ⟨rfl, rfl⟩
  | statement h hf =>
    rw [h]
    exact hf.grown

/-- What has been excused before is excused where the parse fails. -/
theorem Outcome.Excused.endsList {outcome : Outcome α} (h : outcome.Excused f)
    (hl : outcome.LeadsTo error t) (ha : f.At t) (hi : f.item ∈ error.expected) :
    f.EndsList t := by
  match outcome, hl with
  | .stopped (.error _) _, ⟨rfl, rfl⟩ => exact h ha hi
  | .done a s, hg =>
    have hle := Grown.remaining_le hg
    have hat : t.remaining = f.rest.length + 1 := ha
    have hends := h (by omega)
    have hplace : s.remaining = f.rest.length + 1 := hends.place
    exact hends.grow hg (hat.trans hplace.symm)

theorem Outcome.Passed.remaining_lt {outcome : Outcome α} {n : Nat} (h : outcome.Passed n)
    (hl : outcome.LeadsTo error t) : t.remaining < n := by
  match outcome, hl with
  | .stopped (.error _) _, ⟨rfl, rfl⟩ => exact h
  | .done a s, hg => exact Nat.lt_of_le_of_lt (Grown.remaining_le hg) h

/-- Two steps that lead to failures come to the same token, or the second failure is beyond the
place. -/
theorem Outcome.Follows.beyond {outcome outcome' : Outcome α} (h : outcome.Follows f outcome')
    (hl : outcome.LeadsTo error t) (hl' : outcome'.LeadsTo error' t') (ha : f.At t)
    (hi : f.item ∈ error.expected) :
    (∃ a s s', outcome = .done a s ∧ outcome' = .done a s' ∧ Forked f s s') ∨
      f.EndsList t ∨ t'.remaining < f.more.length + 1 := by
  have hoff {error : Error} {t : State} {outcome : Outcome α} (h : outcome.LeadsTo error t) :
      ¬outcome.BreaksOff := by
    match outcome, h with
    | .done .., _ | .stopped (.error _) _, _ => exact id
  cases h with
  | done h => exact .inl ⟨_, _, _, rfl, rfl, h⟩
  | error _ hb =>
    obtain ⟨-, rfl⟩ := hl
    exact absurd ha (Nat.ne_of_gt hb)
  | breaksOff h => exact (h.elim (hoff hl) (hoff hl')).elim
  | apart _ _ hx =>
    exact .inr (hx.imp (fun hx => hx.endsList hl ha hi) fun hp => hp.remaining_lt hl')

/-- By induction on the statements up to the first failure: as long as both inputs have come to the
same token before the place, they have failed at none. -/
theorem failsFrom_beyond (htable : setup.table = .standard) (hs : Forked f s s')
    (htrim : s.trim = s) (h : FailsFrom setup s error t) (h' : FailsFrom setup s' error' t')
    (ha : f.At t) (hi : f.item ∈ error.expected) :
    f.EndsList t ∨ t'.remaining < f.more.length + 1 := by
  induction h generalizing s' with
  | here ht h =>
    refine ((statement_follows htable hs htrim).beyond (FailsFrom.here ht h).leadsTo h'.leadsTo ha
      hi).resolve_left ?_
    rintro ⟨_, _, _, hd, -⟩
    cases h.symm.trans hd
  | later ht h hf ih =>
    refine ((statement_follows htable hs htrim).beyond (FailsFrom.later ht h hf).leadsTo h'.leadsTo
      ha hi).elim ?_ id
    rintro ⟨_, _, _, hd, hd', hs₁⟩
    cases h.symm.trans hd
    cases h' with
    | here _ h' => cases hd'.symm.trans h'
    | later _ h' hf' =>
      cases hd'.symm.trans h'
      exact ih hs₁ ((kept_of_done h).toGrown.trim_eq htrim) hf' ha hi

theorem failsFirst_beyond (htable : setup.table = .standard) {tokens' : List Token}
    (hs : Forked f (.start tokens) (.start tokens'))
    (htrim : (State.start tokens).trim = .start tokens) (h : FailsFirst setup tokens error t)
    (h' : FailsFirst setup tokens' error' t') (ha : f.At t) (hi : f.item ∈ error.expected) :
    f.EndsList t ∨ t'.remaining < f.more.length + 1 := by
  refine ((header_follows htable hs).beyond h.leadsTo h'.leadsTo ha hi).elim ?_ id
  rintro ⟨_, _, _, hd, hd', hs₁⟩
  cases h with
  | header h => cases hd.symm.trans h
  | statement h hf =>
    cases hd.symm.trans h
    cases h' with
    | header h' => cases hd'.symm.trans h'
    | statement h' hf' =>
      cases hd'.symm.trans h'
      exact failsFrom_beyond htable hs₁ ((kept_of_done h).toGrown.trim_eq htrim) hf hf' ha hi

end

/-! ## A token put at a place -/

theorem uptoEnd_of_inOrder {start : Nat} {tokens : List Token} (h : InOrder start tokens) :
    uptoEnd tokens = tokens := by
  induction h with
  | last hk _ => rw [uptoEnd, if_pos hk]
  | cons hk _ _ _ ih => rw [uptoEnd, if_neg hk, ih]

section
variable {s : State} {tokens : List Token} {place : Nat}

def State.behindPut (s : State) : List Token :=
  if s.current.kind = .eof then s.tokens else s.ahead

def State.fork (s : State) {put : Token} {item : Expected} (hm : item.Met put) : Fork where
  found := s.current
  rest := s.ahead
  put
  more := s.behindPut
  item
  met := hm
  room := by
    unfold State.behindPut
    split
    · exact Nat.le_succ _
    · exact Nat.le_refl _

theorem putAt_eq (hp : s.tokens = tokens.drop place) (put : Token) :
    putAt tokens place put = tokens.take place ++ put :: s.behindPut := by
  rw [putAt, ← hp]
  rfl

theorem State.Ended.behindPut (he : s.Ended) :
    ∃ last, s.behindPut.getLast? = some last ∧ last.kind = .eof := by
  obtain ⟨last, hl, hk⟩ := he
  unfold State.behindPut
  split
  · exact ⟨last, hl, hk⟩
  · rename_i hc
    cases ha : s.ahead with
    | nil =>
      rw [State.tokens, ha] at hl
      cases hl
      exact absurd hk hc
    | cons next ahead =>
      rw [State.tokens, ha, List.getLast?_cons_cons] at hl
      exact ⟨last, hl, hk⟩

theorem putAt_ended (he : s.Ended) (hp : s.tokens = tokens.drop place) (put : Token) :
    State.ended (putAt tokens place put) = putAt tokens place put := by
  obtain ⟨last, hl, hk⟩ := he.behindPut
  have hlast : (putAt tokens place put).getLast? = some last := by
    rw [putAt_eq hp, List.getLast?_append, List.getLast?_cons, hl]
    rfl
  rw [State.ended, hlast]
  exact if_pos hk

theorem forked_putAt (he : s.Ended) (ht : State.ended tokens = tokens)
    (hp : s.tokens = tokens.drop place) {put : Token} {item : Expected} (hm : item.Met put) :
    Forked (s.fork hm) (.start tokens) (.start (putAt tokens place put)) where
  ended := State.start_ended _
  ended' := State.start_ended _
  tokens := by
    refine ⟨tokens.take place, ?_, ?_⟩
    · rw [State.start_tokens, ht]
      exact (List.take_append_drop place tokens).symm.trans (congrArg _ hp.symm)
    · rw [State.start_tokens, putAt_ended he hp, putAt_eq hp]
      rfl
  nodes := by rw [State.start_nodes, State.start_nodes]
  depth := by rw [State.start_depth, State.start_depth]
  lastStop := by rw [State.start_lastStop, State.start_lastStop]

end

end Parse

open Parse

/-- There are tokens that meet an item the first error of a source expects, and they are passed
where the error was raised: put there, or before the end of the input, such a token leaves a list of
tokens that parses without error, or whose first error is raised further on.  Only where a statement
list in colon form has ended at that token, the items but the closing brace and another statement
are such as may stand behind what the list stands in: with one of them there, the list would not
have ended, or its colon would have been an operator. -/
theorem Parsed.ofSource_expected {source file : String} {options : Options} {tokens : Tokens}
    (ht : Tokens.ofSource source file options = .ok tokens) {error : Error} {more : List Error}
    (he : (ofSource source file options).errors = error :: more) :
    let setup := Setup.standard file options
    ∃ s place token, FailsFirst setup tokens.tokens error s ∧
      s.tokens = tokens.tokens.drop place ∧ tokens.tokens[place]? = some token ∧
      error.RaisedAt token ∧
      ∀ item ∈ error.expected, (∃ put, item.Met put) ∧
        ((∀ put, item.Met put → ∀ error' more',
          (ofTokens { tokens with tokens := putAt tokens.tokens place put } file options).errors =
              error' :: more' →
            ∃ s' place', FailsFirst setup (putAt tokens.tokens place put) error' s' ∧
              s'.tokens = (putAt tokens.tokens place put).drop place' ∧ place < place') ∨
        item ≠ .statement ∧ item ≠ .token .closeCurly ∧
          (token.kind = .closeCurly ∨ token.kind = .eof) ∧
          ∃ ids start, ⟨.transparentList .colon ids, s.spanFrom start⟩ ∈ s.nodes.toList) := by
  intro setup
  have ho := Tokens.ofSource_inOrder ht
  have hended := State.ended_of_inOrder ho
  have hstart : (State.start tokens.tokens).tokens = tokens.tokens := by
    rw [State.start_tokens, hended]
  rw [ofSource_eq_ofTokens ht] at he
  obtain ⟨s, hs⟩ := errors_of_ofTokens he
  have hse : s.Ended := (State.start_ended tokens.tokens).grow hs.grown
  obtain ⟨place, hp, hlength⟩ := hs.place hstart
  refine ⟨s, place, s.current, hs, hp, current_of_place hp, hs.raisedAt rfl, fun item hi => ?_⟩
  refine ⟨item.exists_met, or_iff_not_imp_right.2 fun hends put hm error' more' he' => ?_⟩
  obtain ⟨s', hs'⟩ : ∃ s', FailsFirst setup (putAt tokens.tokens place put) error' s' :=
    errors_of_ofTokens he'
  have hforked := forked_putAt hse hended hp hm
  have htrim : (State.start tokens.tokens).trim = .start tokens.tokens :=
    State.trim_eq_iff.2 (by rw [hstart, uptoEnd_of_inOrder ho])
  have hbeyond := (failsFirst_beyond rfl hforked htrim hs hs' rfl hi).resolve_left
    fun h => hends ⟨h.statement, h.closeCurly, h.found, h.list⟩
  obtain ⟨place', hp', hlength'⟩ := hs'.place (by rw [State.start_tokens, putAt_ended hse hp])
  refine ⟨s', place', hs', hp', ?_⟩
  -- Places are counted by the tokens that remain of either input.
  have hput : (putAt tokens.tokens place put).length = place + (s.behindPut.length + 1) := by
    rw [putAt_eq hp, List.length_append, List.length_cons, List.length_take,
      Nat.min_eq_left (hlength ▸ Nat.le_add_right ..)]
  rw [State.length_tokens] at hlength'
  change s'.remaining < s.behindPut.length + 1 at hbeyond
  omega

theorem Parsed.ofSource_expected_bracket :
    let tokens : Tokens :=
      { tokens := [⟨.returnWord, "return", ⟨0, 6⟩⟩, ⟨.openParen, "(", ⟨7, 8⟩⟩,
          ⟨.identifier, "a", ⟨8, 9⟩⟩, ⟨.closeBracket, "]", ⟨10, 11⟩⟩, .endAt (.emptyAt 11)]
        trivia := #[⟨.whitespace, ⟨6, 7⟩⟩, ⟨.whitespace, ⟨9, 10⟩⟩] }
    Tokens.ofSource "return (a ]" "open.sm" {} = .ok tokens ∧
      ∃ error, (ofSource "return (a ]" "open.sm" {}).errors = [error] ∧
        .token .closeParen ∈ error.expected ∧
        ∀ put, put.kind = .closeParen → ∀ error' more',
          (ofTokens { tokens with tokens := putAt tokens.tokens 3 put } "open.sm" {}).errors =
              error' :: more' →
            ∃ s' place', FailsFirst (.standard "open.sm" {}) (putAt tokens.tokens 3 put) error' s' ∧
              s'.tokens = (putAt tokens.tokens 3 put).drop place' ∧ 3 < place' := by
  intro tokens
  have ht : Tokens.ofSource "return (a ]" "open.sm" {} = .ok tokens := by decide +kernel
  let error : Error :=
    { cause := .unexpectedToken "]" none
      span := ⟨10, 11⟩
      expected := [.token .comma, .token .closeParen]
      file := some "open.sm" }
  have he : (ofSource "return (a ]" "open.sm" {}).errors = [error] := by decide +kernel
  have hi : .token .closeParen ∈ error.expected := .tail _ (.head _)
  obtain ⟨s, place, token, -, -, hp, hr, h⟩ := ofSource_expected ht he
  -- The error is raised at the bracket, the one token with its span.
  obtain ⟨rfl, hk⟩ : place = 3 ∧ token.kind = .closeBracket := by
    have hspan : ⟨10, 11⟩ = token.span := hr
    obtain ⟨hlt, rfl⟩ := List.getElem?_eq_some_iff.1 hp
    change place < 5 at hlt
    interval_cases place <;> first | exact ⟨rfl, rfl⟩ | cases hspan
  refine ⟨ht, error, he, hi, (h _ hi).2.resolve_right ?_⟩
  rintro ⟨-, -, hends, -⟩
  rw [hk] at hends
  rcases hends with h | h <;> cases h

/-- Behind the colon of a statement list that the input ends in, a closing parenthesis is expected
and refused: with it there the colon is an operator that wants an operand. -/
theorem Parsed.ofSource_colon_operator :
    let tokens : Tokens :=
      { tokens := [⟨.returnWord, "return", ⟨0, 6⟩⟩, ⟨.openParen, "(", ⟨7, 8⟩⟩,
          ⟨.yieldWord, "yield", ⟨8, 13⟩⟩, ⟨.identifier, "a", ⟨14, 15⟩⟩, ⟨.colon, ":", ⟨15, 16⟩⟩,
          .endAt (.emptyAt 16)]
        trivia := #[⟨.whitespace, ⟨6, 7⟩⟩, ⟨.whitespace, ⟨13, 14⟩⟩] }
    let setup := Setup.standard "colon.sm" {}
    Tokens.ofSource "return (yield a:" "colon.sm" {} = .ok tokens ∧
      ∃ error s, (ofSource "return (yield a:" "colon.sm" {}).errors = [error] ∧
        error.classify = .syntactic ∧ FailsFirst setup tokens.tokens error s ∧
        s.tokens = tokens.tokens.drop 5 ∧ .token .closeParen ∈ error.expected ∧
        ∀ put, put.kind = .closeParen →
          let tokens' := putAt tokens.tokens 5 put
          ∃ error' s',
            (ofTokens { tokens with tokens := tokens' } "colon.sm" {}).errors = [error'] ∧
            FailsFirst setup tokens' error' s' ∧ s'.tokens = tokens'.drop 5 := by
  intro tokens setup
  let error : Error :=
    { cause := .unclosedDelimiter '(' "parenthesized expression"
      span := ⟨7, 16⟩
      expected := [.token .comma, .token .closeParen]
      file := some "colon.sm" }
  let s : State :=
    { current := .endAt (.emptyAt 16)
      ahead := []
      nodes := #[⟨.identifier (.single ⟨"a", false, ⟨14, 15⟩⟩), ⟨14, 15⟩⟩,
        ⟨.yieldAttribute 0, ⟨8, 15⟩⟩, ⟨.transparentList .colon [], ⟨15, 16⟩⟩,
        ⟨.batchAttributes [1] 2, ⟨8, 16⟩⟩]
      lastStop := 16 }
  have hs : (Rule.form .statement).parse setup (.start tokens.tokens) =
      .stopped (.error error) s := by cbv
  refine ⟨by decide +kernel, error, s, by decide +kernel, by decide,
    .statement (header_none rfl) (.here rfl hs), rfl, .tail _ (.head _), ?_⟩
  rintro ⟨_, value, span⟩ rfl tokens'
  let error' : Error :=
    { cause := .unexpectedToken value none
      span
      expected := [.expression]
      file := some "colon.sm" }
  let s' : State :=
    { current := ⟨.closeParen, value, span⟩
      ahead := [.endAt (.emptyAt 16)]
      nodes := #[⟨.identifier (.single ⟨"a", false, ⟨14, 15⟩⟩), ⟨14, 15⟩⟩]
      lastStop := 16 }
  have hs' : (Rule.form .statement).parse setup (.start tokens') =
      .stopped (.error error') s' := by cbv
  exact ⟨error', s', by cbv, .statement (header_none rfl) (.here rfl hs'), rfl⟩

end Smaug
