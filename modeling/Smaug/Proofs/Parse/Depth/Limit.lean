import Mathlib
import Smaug.Proofs.Parse.Depth.Rules
import Smaug.Proofs.Parse.Recovery

/-! # The limit on nesting

With a higher limit a module is parsed to the same tree and the same errors, unless the limit was
met.  That takes a look at one place only: where the pattern in the head of a range meets the limit,
the head is taken back, and the error with it.  But the parenthesis it opened with then opens a
pattern, one level deeper, and that meets the limit again.
-/

namespace Smaug

namespace Parse

/-! ## Patterns -/

section
variable {setup : Setup} {s : State}

theorem bind_givesUp_mono {step : Parse α} {next next' : α → Parse β}
    (h : ((step >>= next) setup s).GivesUp)
    (hn : ∀ a s', (next a setup s').GivesUp → (next' a setup s').GivesUp) :
    ((step >>= next') setup s).GivesUp := by
  change (Parse.bind step next setup s).GivesUp at h
  change (Parse.bind step next' setup s).GivesUp
  unfold Parse.bind at h ⊢
  cases ho : step setup s with
  | done a s' =>
    rw [ho] at h
    exact hn a s' h
  | stopped why s' =>
    rw [ho] at h
    exact h.stopped s'

theorem look_bind_givesUp {f : State → α} {next : α → Parse β}
    (h : (next (f s) setup s).GivesUp) : ((look f >>= next) setup s).GivesUp := h

theorem nested_givesUp {step : Parse α} :
    (nested step setup s).GivesUp ↔
      (s.depth < setup.maxDepth → (step setup s.deeper).GivesUp) := by
  rw [nested_apply]
  by_cases hd : s.depth < setup.maxDepth
  · rw [if_pos hd]
    cases step setup s.deeper with
    | done => simp [hd, Outcome.GivesUp]
    | stopped why => cases why <;> simp [hd, Outcome.GivesUp]
  · rw [if_neg hd]
    exact iff_of_true rfl fun h => absurd h hd

/-- A default value allowed is no reason for a pattern not to give up. -/
theorem pattern_givesUp {n : Nat} {form : PatternForm}
    (h : (Rule.runWith n (.pattern form false) setup s).GivesUp) :
    (Rule.runWith n (.pattern form true) setup s).GivesUp := by
  induction n generalizing form s with
  | zero => trivial
  | succ n ih =>
    cases form with
    | any =>
      refine nested_givesUp.2 fun hd => ?_
      refine bind_givesUp_mono (nested_givesUp.1 h hd) fun table s' h => ?_
      refine bind_givesUp_mono h fun kind s' h => ?_
      generalize table.pattern kind = form at h ⊢
      cases form with
      | some form => exact ih h
      | none => exact h
    | named =>
      refine bind_givesUp_mono h fun kind s' h => ?_
      by_cases hk : kind = .openParen
      · rw [if_pos hk] at h ⊢
        exact ih h
      · rw [if_neg hk] at h ⊢
        exact ih h
    | identifier =>
      exact bind_givesUp_mono h fun name s' h => bind_givesUp_mono h fun type s' h => h.elim
    | rest => exact h
    | tuple => exact h
    | enum => exact h
    | literal => exact h

theorem delimited_givesUp {close : Token.Kind} {element : Parse NodeId} (hk : s.kind ≠ close)
    (h : (element setup s).GivesUp) : (delimited close element setup s).GivesUp := by
  have hc : (s.kind == close) = false := beq_eq_false_iff_ne.2 hk
  refine bind_givesUp (look_bind_givesUp (bind_givesUp (bind_givesUp (look_bind_givesUp ?_))))
  rw [hc]
  exact bind_givesUp h

theorem misplaced_not_givesUp (expected : Expected) :
    ¬((misplaced expected >>= fun error => refuse error : Parse α) setup s).GivesUp := by
  change ¬(Parse.bind (misplaced expected) _ setup s).GivesUp
  unfold misplaced unexpected
  change ¬(Parse.bind (Parse.bind (look State.current) _) _ setup s).GivesUp
  cases hr : s.current.kind.isReserved with
  | true =>
    simp [Parse.bind, look, hr, errorAt, given, refuse, stop, Outcome.GivesUp, Error.classify,
      Cause.classify]
  | false =>
    simp only [Bind.bind, Parse.bind, look, hr, Bool.false_eq_true, if_false, errorAt, given]
    by_cases hk : s.current.kind = .eof <;>
      simp [hk, refuse, stop, Outcome.GivesUp, Error.classify, Cause.classify]

section
variable {run : Rule → Parse NodeId} {allowDefault : Bool}

theorem pattern_givesUp_some {form : PatternForm} (h : setup.table.pattern s.kind = some form) :
    (pattern run allowDefault setup s).GivesUp ↔
      (s.depth < setup.maxDepth → (run (.pattern form allowDefault) setup s.deeper).GivesUp) := by
  have hk : setup.table.pattern s.deeper.kind = some form := h
  unfold pattern
  rw [nested_givesUp]
  simp only [Bind.bind, Parse.bind, given, look, hk]

theorem pattern_givesUp_none (h : setup.table.pattern s.kind = none) :
    (pattern run allowDefault setup s).GivesUp ↔ ¬s.depth < setup.maxDepth := by
  have hk : setup.table.pattern s.deeper.kind = none := h
  have hm : ¬((misplaced .pattern >>= fun error => refuse error : Parse NodeId) setup
      s.deeper).GivesUp := misplaced_not_givesUp .pattern
  unfold pattern
  rw [nested_givesUp]
  simp only [Bind.bind, Parse.bind, given, look, hk] at hm ⊢
  exact imp_congr_right fun _ => iff_false_intro hm

end

theorem deeper_advance (s : State) : s.deeper.advance = s.advance.deeper := by
  obtain ⟨current, ahead, nodes, depth, lastStop⟩ := s
  cases ahead with
  | nil => rfl
  | cons next ahead =>
    cases hk : current.kind != .eof <;>
      simp [State.advance, State.deeper, State.hasTokens, State.kind, hk]

/-- The pattern that a parenthesis opens reads the pattern behind the parenthesis one level deeper,
so with less room. -/
theorem runWith_firm (ht : setup.table = .standard) {n : Nat}
    (hr : ∀ m, m < n → ∀ rule,
      Refines setup setup (Rule.runWith m rule) (Rule.runWith n rule)) :
    Firm setup (Rule.runWith n) := by
  intro s ho hg
  have htuple : setup.table.pattern s.kind = some .tuple := by
    rw [ht, ho]
    rfl
  match n with
  | 0 => trivial
  | 1 => exact (pattern_givesUp_some htuple).2 fun _ => trivial
  | n + 2 =>
    refine (pattern_givesUp_some htuple).2 fun hd => ?_
    have hclose : s.advance.kind ≠ .closeParen := by
      intro hc
      have hnone : setup.table.pattern s.advance.kind = none := by
        rw [ht, hc]
        rfl
      exact (pattern_givesUp_none hnone).1 hg ((Kept.advance s).depth ▸ hd)
    have hless : MoreRoom setup setup s.advance.deeper s.advance :=
      ⟨rfl, Nat.add_le_add_left (Nat.le_succ _) _⟩
    have helement : (Rule.runWith n (.pattern .any true) setup s.advance.deeper).GivesUp :=
      pattern_givesUp (((hr n (by omega) _).outcome hless).givesUp_of hg)
    have hopen : expect .openParen setup s.deeper = .done s.current s.advance.deeper :=
      expect_done.2 ⟨ho, rfl, (deeper_advance s).symm⟩
    change (Parse.bind (expect .openParen) _ setup s.deeper).GivesUp
    unfold Parse.bind
    rw [hopen]
    exact bind_givesUp (inside_givesUp (delimited_givesUp hclose helement))

end

/-- With more room, and with calls nested deeper, a rule does what it has done with less. -/
theorem runWith_refines {setup setup' : Setup} [SameGrammar setup setup']
    (ht : setup.table = .standard) {n n' : Nat} (hn : n ≤ n') (rule : Rule) :
    Refines setup setup' (Rule.runWith n rule) (Rule.runWith n' rule) := by
  induction n using Nat.strong_induction_on generalizing setup' n' rule with
  | h n ih =>
    match n, n', hn with
    | 0, _, _ => exact refines_exhausted
    | n + 1, n' + 1, hn =>
      have hle := Nat.le_of_succ_le_succ hn
      have (rule : Rule) : Refines setup setup' (Rule.runWith n rule) (Rule.runWith n' rule) :=
        ih n (Nat.lt_succ_self n) hle rule
      have hf : Firm setup (Rule.runWith n) :=
        runWith_firm ht fun m hm rule => ih m (Nat.lt_succ_of_lt hm) (Nat.le_of_lt hm) rule
      exact ruleBody_refines hf rule

theorem parse_refines {setup setup' : Setup} [SameGrammar setup setup']
    (ht : setup.table = .standard) (rule : Rule) :
    Refines setup setup' rule.parse rule.parse where
  outcome {s s'} hs := by
    have hroom := hs.room
    have hn : Rule.fuel setup s ≤ Rule.fuel setup' s' := by
      rw [Rule.fuel, Rule.fuel, hs.remaining]
      omega
    exact (runWith_refines ht hn rule).outcome hs

/-! ## Statements -/

theorem Outcome.Refines.eq {setup setup' : Setup} {s : State} {outcome outcome' : Outcome α}
    (h : outcome.Refines setup setup' outcome') (hg : ¬outcome.GivesUp) (hk : outcome.Keeps setup s)
    (hk' : outcome'.Keeps setup' s) : outcome' = outcome := by
  cases h with
  | givesUp h => exact absurd h hg
  | done h => rw [h.same, Kept.depth hk', ← Kept.depth hk]
  | error h => rw [h.same, Kept.depth hk', ← Kept.depth hk]

/-- A step that is followed by the same with more room does not see a higher limit. -/
theorem step_eq {setup setup' : Setup} {step : Parse α} [Keeps step]
    (h : Refines setup setup' step step) (hd : setup.maxDepth ≤ setup'.maxDepth) {s : State}
    (hg : ¬(step setup s).GivesUp) : step setup' s = step setup s :=
  (h.outcome ⟨rfl, Nat.add_le_add_right hd _⟩).eq hg (keeps step setup s) (keeps step setup' s)

theorem Outcome.GivesUp.of_isSettled {outcome : Outcome α} (hg : outcome.GivesUp)
    (hs : outcome.IsSettled) :
    ∃ error s, outcome = .stopped (.error error) s ∧ error.classify = .resource := by
  match outcome, hg, hs with
  | .stopped (.error error) s, hg, _ => exact ⟨error, s, rfl, hg⟩

theorem recover_remaining {s s' : State} (he : s.Ended) (ht : s.hasTokens) (hk : Kept s s') :
    (recover s.mark s').remaining < s.remaining :=
  have hp : s.tokens = s.tokens.drop 0 := rfl
  remaining_lt_of_place hp (recover_place he ht hp hk) (lt_resumeAt _ (Nat.le_add_right 0 _)).1

section
variable {setup setup' : Setup} {strict : Bool} {turns : Nat} {s : State} {ids : Array NodeId}
  {errors : Array Error}

/-- Errors are only added. -/
theorem mem_topLevel_errors {error : Error} (h : error ∈ errors) :
    error ∈ (topLevel setup strict turns s ids errors).errors := by
  induction turns generalizing s ids errors with
  | zero => exact h
  | succ turns ih =>
    have hp (error' : Error) : error ∈ errors.push error' := Array.mem_push_of_mem _ h
    unfold topLevel
    split
    · split
      · exact ih h
      · dsimp only
        split
        · exact hp _
        · split
          · exact hp _
          · exact ih (hp _)
      · exact h
    · exact h

/-- Where no limit is met, a higher one changes nothing. -/
theorem topLevel_eq [SameGrammar setup setup'] (htable : setup.table = .standard)
    (hd : setup.maxDepth ≤ setup'.maxDepth) (he : s.Ended)
    (hr : ∀ error ∈ (topLevel setup strict turns s ids errors).errors,
      error.classify ≠ .resource) :
    topLevel setup' strict turns s ids errors = topLevel setup strict turns s ids errors := by
  induction turns generalizing s ids errors with
  | zero => rfl
  | succ turns ih =>
    cases ht : s.hasTokens with
    | false => rw [topLevel_end ht, topLevel_end ht]
    | true =>
      have hk := keeps (Rule.form .statement).parse setup s
      have hset : ((Rule.form .statement).parse setup s).IsSettled :=
        parse_isSettled htable he trivial (List.forall_mem_nil _)
      have hg : ¬((Rule.form .statement).parse setup s).GivesUp := by
        intro hg
        obtain ⟨error, s', ho, hc⟩ := hg.of_isSettled hset
        rw [topLevel_limit ht ho hc] at hr
        exact hr error (by simp) hc
      have hrule : Refines setup setup' (Rule.form .statement).parse (Rule.form .statement).parse :=
        parse_refines htable (.form .statement)
      have heq := step_eq hrule hd hg
      cases ho : (Rule.form .statement).parse setup s with
      | done id s' =>
        rw [ho] at hk
        rw [topLevel_statement ht ho] at hr ⊢
        rw [topLevel_statement ht (heq.trans ho)]
        exact ih (he.grow hk.toGrown) hr
      | stopped why s' =>
        rw [ho] at hk hset hg
        cases why with
        | missingNode => exact absurd hset id
        | exhausted => exact absurd hset id
        | error error =>
          have hc : error.classify ≠ .resource := hg
          cases strict with
          | true => simp [topLevel, ht, ho, heq.trans ho, hc]
          | false =>
            rw [topLevel_recover ht ho hc] at hr ⊢
            rw [topLevel_recover ht (heq.trans ho) hc]
            exact ih (he.grow (recover_kept hk.toGrown).1.toGrown) hr

end

/-! ## Calls -/

open Classical in
/-- The rules as `run` means them, but for one call that is never answered. -/
noncomputable def unanswered (run : Rule → Parse NodeId) (called : Rule × State) :
    Rule → Parse NodeId := fun rule setup s =>
  if (rule, s) = called then .stopped .exhausted s else run rule setup s

/-- A rule makes a call: unless that is answered, the rule does not end. -/
def Calls (setup : Setup) (run : Rule → Parse NodeId) (caller called : Rule × State) : Prop :=
  ∃ s, caller.1.body (unanswered run called) setup caller.2 = .stopped .exhausted s

/-- Calls lead from a rule to another, each with less fuel than the one before. -/
inductive Leads (setup : Setup) : Nat → Rule × State → Nat → Rule × State → Prop
  | refl : Leads setup n caller n caller
  | call (h : Calls setup (Rule.runWith n) caller called) (h' : Leads setup n called m last) :
      Leads setup (n + 1) caller m last

theorem unanswered_called (run : Rule → Parse NodeId) (called : Rule × State) (setup : Setup) :
    unanswered run called called.1 setup called.2 = .stopped .exhausted called.2 := if_pos rfl

theorem unanswered_ne {run : Rule → Parse NodeId} {called : Rule × State} {rule : Rule} {s : State}
    (h : (rule, s) ≠ called) (setup : Setup) :
    unanswered run called rule setup s = run rule setup s := if_neg h

instance {run : Rule → Parse NodeId} [∀ rule, Keeps (run rule)] (called : Rule × State)
    (rule : Rule) : Keeps (unanswered run called rule) where
  keeps setup s := by
    by_cases h : (rule, s) = called
    · subst h
      rw [unanswered_called run (rule, s)]
      exact Outcome.keeps_breakOff setup s
    · rw [unanswered_ne h]
      exact keeps (run rule) setup s

/-- A rule gives up where one that it calls does. -/
theorem Calls.givesUp {setup : Setup} (ht : setup.table = .standard) {n : Nat}
    {caller called : Rule × State} (h : Calls setup (Rule.runWith n) caller called)
    (hg : (Rule.runWith n called.1 setup called.2).GivesUp) :
    (Rule.runWith (n + 1) caller.1 setup caller.2).GivesUp := by
  have hrule (rule : Rule) :
      Refines setup setup (Rule.runWith n rule) (unanswered (Rule.runWith n) called rule) := by
    refine ⟨fun {s s'} hs => ?_⟩
    have hn := (runWith_refines ht (Nat.le_refl n) rule).outcome hs
    by_cases hc : (rule, s') = called
    · subst hc
      exact .givesUp (hn.givesUp_of hg)
    · rwa [unanswered_ne hc]
  have hfirm : Firm setup (Rule.runWith n) :=
    runWith_firm ht fun m hm rule => runWith_refines ht (Nat.le_of_lt hm) rule
  have hbody : Refines setup setup (caller.1.body (Rule.runWith n))
      (caller.1.body (unanswered (Rule.runWith n) called)) := ruleBody_refines hfirm caller.1
  obtain ⟨s, hs⟩ := h
  have hbody := hbody.outcome (⟨rfl, Nat.le_refl _⟩ : MoreRoom setup setup caller.2 caller.2)
  rw [hs] at hbody
  exact hbody.givesUp_of trivial

theorem Leads.givesUp {setup : Setup} (ht : setup.table = .standard) {n m : Nat}
    {caller last : Rule × State} (h : Leads setup n caller m last)
    (hg : (Rule.runWith m last.1 setup last.2).GivesUp) :
    (Rule.runWith n caller.1 setup caller.2).GivesUp := by
  induction h with
  | refl => exact hg
  | call h _ ih => exact h.givesUp ht (ih hg)

/-- An `each` statement calls for the pattern in its range head. -/
theorem calls_rangeHead {setup : Setup} {run : Rule → Parse NodeId} [∀ rule, Keeps (run rule)]
    {s : State} (ho : s.advance.kind = .openParen) :
    Calls setup run (.form .eachStatement, s) (.pattern .any false, s.advance.advance) := by
  refine ⟨s.advance.advance, ?_⟩
  have hcall := unanswered_called run (.pattern .any false, s.advance.advance) setup
  change Parse.bind (rangeHead _) _ setup s.advance = _
  unfold Parse.bind
  rw [rangeHead_apply, if_pos ho, hcall]

/-! ## Modules -/

inductive StatementAt (tokens : Tokens) (file : String) (options : Options) : State → Prop
  | first (h : header (.standard file options) (.start tokens.tokens) = .done i s) :
      StatementAt tokens file options s
  | firstAfterFailure
      (h : header (.standard file options) (.start tokens.tokens) = .stopped (.error error) s)
      (hm : options.isStrict = false) :
      StatementAt tokens file options (recover (State.start tokens.tokens).mark s)
  | next (hs : StatementAt tokens file options s) (ht : s.hasTokens)
      (h : (Rule.form .statement).parse (.standard file options) s = .done i s') :
      StatementAt tokens file options s'
  | nextAfterFailure (hs : StatementAt tokens file options s) (ht : s.hasTokens)
      (h : (Rule.form .statement).parse (.standard file options) s = .stopped (.error error) s')
      (hc : error.classify ≠ .resource) (hm : options.isStrict = false) :
      StatementAt tokens file options (recover s.mark s')

theorem StatementAt.errors {tokens : Tokens} {file : String} {options : Options} {s : State}
    (h : StatementAt tokens file options s) :
    s.Ended ∧ ∃ turns ids errors, s.remaining ≤ turns ∧
      (Parsed.ofTokens tokens file options).errors =
        (topLevel (.standard file options) options.isStrict turns s ids errors).errors.toList := by
  have he := State.start_ended tokens.tokens
  induction h with
  | first h =>
    refine ⟨he.grow (kept_of_done h).toGrown, _, #[], #[], Nat.le_refl _, ?_⟩
    simp [Parsed.ofTokens, h, Parsed.ofProgress, moduleBody]
  | @firstAfterFailure error s h hm =>
    have hk := keeps header (.standard file options) (.start tokens.tokens)
    rw [h] at hk
    have hr := (recover_kept hk.grown).1.toGrown
    refine ⟨he.grow hr, _, #[], #[error], Nat.le_refl _, ?_⟩
    simp [Parsed.ofTokens, h, hm, Parsed.ofProgress, moduleBody]
  | next _ ht h ih =>
    obtain ⟨he, turns, ids, errors, hn, herrors⟩ := ih
    have hlt := passes (Rule.form .statement).parse rfl he h
    obtain ⟨turns, rfl⟩ : ∃ n, turns = n + 1 := ⟨turns - 1, by omega⟩
    rw [topLevel_statement ht h] at herrors
    exact ⟨he.grow (kept_of_done h).toGrown, turns, _, _, by omega, herrors⟩
  | @nextAfterFailure s error s' _ ht h hc hm ih =>
    obtain ⟨he, turns, ids, errors, hn, herrors⟩ := ih
    have hk := keeps (Rule.form .statement).parse (.standard file options) s
    rw [h] at hk
    have hlt := recover_remaining he ht hk
    obtain ⟨turns, rfl⟩ : ∃ n, turns = n + 1 := ⟨turns - 1, by omega⟩
    rw [hm, topLevel_recover ht h hc] at herrors
    refine ⟨he.grow (recover_kept hk.grown).1.toGrown, turns, ids, errors.push error, by omega,
      ?_⟩
    rw [hm]
    exact herrors

/-- A statement that gives up is reported. -/
theorem StatementAt.givesUp {tokens : Tokens} {file : String} {options : Options} {s : State}
    (h : StatementAt tokens file options s) (ht : s.hasTokens)
    (hg : ((Rule.form .statement).parse (.standard file options) s).GivesUp) :
    ∃ error ∈ (Parsed.ofTokens tokens file options).errors, error.classify = .resource := by
  obtain ⟨he, turns, ids, errors, hn, herrors⟩ := h.errors
  obtain ⟨error, s', ho, hc⟩ :=
    hg.of_isSettled (parse_isSettled rfl he trivial (List.forall_mem_nil _))
  have hpos := s.remaining_pos
  obtain ⟨turns, rfl⟩ : ∃ n, turns = n + 1 := ⟨turns - 1, by omega⟩
  rw [topLevel_limit ht ho hc] at herrors
  exact ⟨error, by simp [herrors], hc⟩

end Parse

open Parse

/-- A higher limit on nesting changes nothing about a module that the limit was not met in. -/
theorem Parsed.ofTokens_deeper {tokens : Tokens} {file : String} {options : Options}
    (hr : ∀ error ∈ (ofTokens tokens file options).errors, error.classify ≠ .resource)
    {maxDepth : Nat} (hd : options.maxDepth ≤ maxDepth) :
    ofTokens tokens file { options with maxDepth } = ofTokens tokens file options := by
  have he := State.start_ended tokens.tokens
  have hset : (header (.standard file options) (.start tokens.tokens)).IsSettled :=
    header_isSettled rfl he
  have hk := keeps header (.standard file options) (.start tokens.tokens)
  have hg : ¬(header (.standard file options) (.start tokens.tokens)).GivesUp := by
    intro hg
    obtain ⟨error, s, ho, hc⟩ := hg.of_isSettled hset
    refine hr error ?_ hc
    unfold ofTokens
    dsimp only
    rw [ho]
    dsimp only
    split
    · exact List.mem_singleton_self error
    · exact Array.mem_toList_iff.2 (mem_topLevel_errors (Array.mem_singleton_self error))
  have heq : header (.standard file { options with maxDepth }) (.start tokens.tokens) =
      header (.standard file options) (.start tokens.tokens) := step_eq inferInstance hd hg
  have hbody {strict : Bool} {s : State} {errors : Array Error} (he : s.Ended)
      (hr : ∀ error ∈ (moduleBody (.standard file options) strict s errors).errors,
        error.classify ≠ .resource) :
      moduleBody (.standard file { options with maxDepth }) strict s errors =
        moduleBody (.standard file options) strict s errors := topLevel_eq rfl hd he hr
  have hstrict : Options.isStrict { options with maxDepth } = options.isStrict := rfl
  unfold ofTokens at hr ⊢
  dsimp only at hr ⊢
  rw [heq, hstrict]
  cases ho : header (.standard file options) (.start tokens.tokens) with
  | done first s =>
    rw [ho] at hr hk
    dsimp only at hr ⊢
    rw [hbody (he.grow (Kept.toGrown hk)) fun error hm => hr error (Array.mem_toList_iff.2 hm)]
  | stopped why s =>
    rw [ho] at hr hk
    match why, hk with
    | .error error, hk =>
      cases hm : options.isStrict with
      | true => simp only [if_true]
      | false =>
        have hrec := (recover_kept hk.toGrown).1.toGrown
        simp only [hm, Bool.false_eq_true, if_false] at hr ⊢
        rw [hbody (he.grow hrec) fun error hm => hr error (Array.mem_toList_iff.2 hm)]
    | .missingNode _, _ => rfl
    | .exhausted, _ => rfl

/-- A limit on nesting that is not met is not noticed: with a higher one a module is parsed to the
same tree and the same errors.  And a limit that is met is reported, even where the error is taken
back at first: by an `each` that reads the tokens after its parenthesis for the head of a range. -/
theorem Parsed.ofTokens_maxDepth (tokens : Tokens) (file : String) (options : Options) :
    (∀ maxDepth, options.maxDepth ≤ maxDepth →
      (∀ error ∈ (ofTokens tokens file options).errors, error.classify ≠ .resource) →
      ofTokens tokens file { options with maxDepth } = ofTokens tokens file options) ∧
    let setup := Setup.standard file options
    ∀ s n each, StatementAt tokens file options s → s.hasTokens →
      Leads setup (Rule.fuel setup s) (.form .statement, s) (n + 1) (.form .eachStatement, each) →
      each.advance.kind = .openParen → ∀ error s',
      Rule.runWith n (.pattern .any false) setup each.advance.advance =
        .stopped (.error error) s' → error.classify = .resource →
      ∃ error ∈ (ofTokens tokens file options).errors, error.classify = .resource := by
  refine ⟨fun maxDepth hd hr => ofTokens_deeper hr hd, ?_⟩
  intro setup s n each hs ht hl ho error s' hp hc
  have hpattern : (Rule.runWith n (.pattern .any false) setup each.advance.advance).GivesUp := by
    rw [hp]
    exact hc
  have heach : (Rule.runWith (n + 1) (.form .eachStatement) setup each).GivesUp :=
    (calls_rangeHead ho).givesUp rfl hpattern
  exact hs.givesUp ht (hl.givesUp rfl heach)

theorem Parsed.ofTokens_maxDepth_each :
    let tokens : Tokens :=
      { tokens :=
          [⟨.eachWord, "each", ⟨0, 4⟩⟩, ⟨.openParen, "(", ⟨5, 6⟩⟩, ⟨.openParen, "(", ⟨6, 7⟩⟩,
            ⟨.identifier, "a", ⟨7, 8⟩⟩, ⟨.closeParen, ")", ⟨8, 9⟩⟩, ⟨.closeParen, ")", ⟨9, 10⟩⟩,
            ⟨.assignment, "=", ⟨11, 12⟩⟩, ⟨.identifier, "b", ⟨13, 14⟩⟩,
            ⟨.openCurly, "\x7b", ⟨15, 16⟩⟩, ⟨.closeCurly, "\x7d", ⟨16, 17⟩⟩,
            .endAt (.emptyAt 17)]
        trivia := #[] }
    ofTokens tokens "each.sm" { maxDepth := 300 } = ofTokens tokens "each.sm" {} ∧
      ∃ error ∈ (ofTokens tokens "each.sm" { maxDepth := 1 }).errors,
        error.classify = .resource := by
  intro tokens
  have herrors : (ofTokens tokens "each.sm" {}).errors = [] := by decide +kernel
  refine ⟨(ofTokens_maxDepth tokens "each.sm" {}).1 300 (by decide) (by simp [herrors]), ?_⟩
  have hcalls (run : Rule → Parse NodeId) :
      Calls (.standard "each.sm" { maxDepth := 1 }) run
        (.form .statement, .start tokens.tokens) (.form .eachStatement, .start tokens.tokens) :=
    ⟨_, unanswered_called run (.form .eachStatement, .start tokens.tokens) _⟩
  have hpattern : ∃ error s', Rule.runWith 206 (.pattern .any false)
      (.standard "each.sm" { maxDepth := 1 }) (State.start tokens.tokens).advance.advance =
        .stopped (.error error) s' ∧ error.classify = .resource := ⟨_, _, rfl, rfl⟩
  obtain ⟨error, s', hp, hc⟩ := hpattern
  exact (ofTokens_maxDepth tokens "each.sm" { maxDepth := 1 }).2 (.start tokens.tokens) 206
    (.start tokens.tokens) (.first rfl) rfl (.call (hcalls _) .refl) rfl error s' hp hc

end Smaug
