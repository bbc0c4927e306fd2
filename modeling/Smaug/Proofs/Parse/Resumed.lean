import Mathlib
import Smaug.Proofs.Parse.Depth.Levels
import Smaug.Proofs.Parse.Depth.Limit

/-! # Expressions that are resumed

An expression can be read in two goes: first up to a suffix that does not bind tightly enough, and
then from there on with the suffixes that bind less tightly.  It comes to the same nodes as at one
go, since every suffix that is taken at first would be taken anyway.  So `yield`, which reads its
operand as a type before it goes on with it, reads the same values as `return`.
-/

namespace Smaug

namespace Parse

open Grammar

/-! ## Steps and turns one behind the other -/

section
variable {step : Parse α} {next : α → Parse β} {setup : Setup} {s s' : State}

theorem bind_of_eq {step' : Parse α} (h : step setup s = step' setup s') :
    (step >>= next) setup s = (step' >>= next) setup s' := by
  change Parse.bind step next setup s = Parse.bind step' next setup s'
  rw [Parse.bind, Parse.bind, h]

theorem bind_of_done {a : α} (h : step setup s = .done a s') :
    (step >>= next) setup s = next a setup s' := by
  change Parse.bind step next setup s = _
  rw [Parse.bind, h]

theorem bind_of_stopped {why : Stop} (h : step setup s = .stopped why s') :
    (step >>= next) setup s = .stopped why s' := by
  change Parse.bind step next setup s = _
  rw [Parse.bind, h]

variable {turn : α → Parse (Turn α β)} {turns : Nat} {a : α}

theorem iterate_again {a' : α} (h : turn a setup s = .done (.again a') s') :
    iterate turn (turns + 1) a setup s = iterate turn turns a' setup s' := bind_of_done h

theorem iterate_finish {b : β} (h : turn a setup s = .done (.finish b) s') :
    iterate turn (turns + 1) a setup s = .done b s' := bind_of_done h

theorem iterate_stopped {why : Stop} (h : turn a setup s = .stopped why s') :
    iterate turn (turns + 1) a setup s = .stopped why s' := bind_of_stopped h

end

/-! ## Suffixes -/

section
variable {run : Rule → Parse NodeId} {setup : Setup} {power low tight : Power} {s : State}
  {left : NodeId}

/-- A suffix that binds more tightly than `tight` also does than `low`. -/
theorem suffixTurn_tight (h : low.rank ≤ tight.rank) :
    suffixTurn run tight left setup s = .done (.finish left) s ∨
      suffixTurn run low left setup s = suffixTurn run tight left setup s ∧
        ∀ last s', suffixTurn run tight left setup s ≠ .done (.finish last) s' := by
  cases hf : setup.table.suffix s.kind with
  | none => exact .inl (suffixTurn_loose run (by simp [hf]) left)
  | some entry =>
    obtain ⟨next, suffix⟩ := entry
    cases hp : next.tighter tight with
    | false => exact .inl (suffixTurn_loose run (by simp [hf, hp]) left)
    | true =>
      have hlow : next.tighter low := by
        simp only [Power.tighter, decide_eq_true_eq] at hp ⊢
        omega
      right
      simp only [suffixTurn, Bind.bind, Parse.bind, given, look, hf, hp, hlow, if_true, true_and]
      intro last s'
      split
      · exact fun hd => by cases hd
      · exact fun hd => by cases hd

variable [∀ rule, Keeps (run rule)] [Passing run]

/-- How many turns the loop may take makes no difference, as long as there are as many as tokens. -/
theorem suffixes_turns (ht : setup.table = .standard) (he : s.Ended) {n m : Nat}
    (hn : s.remaining < n) (hm : s.remaining < m) :
    iterate (suffixTurn run power) n left setup s =
      iterate (suffixTurn run power) m left setup s := by
  induction n generalizing m left s with
  | zero => exact absurd hn (Nat.not_lt_zero _)
  | succ n ih =>
    obtain ⟨m, rfl⟩ : ∃ k, m = k + 1 := ⟨m - 1, by omega⟩
    cases ho : suffixTurn run power left setup s with
    | stopped => rw [iterate_stopped ho, iterate_stopped ho]
    | done turn s' =>
      cases turn with
      | finish => rw [iterate_finish ho, iterate_finish ho]
      | again left' =>
        have hp := suffixTurn_passes ht he ho
        rw [iterate_again ho, iterate_again ho]
        exact ih (he.grow (kept_of_done ho).toGrown) (by omega) (by omega)

theorem suffixes_split (ht : setup.table = .standard) (h : low.rank ≤ tight.rank) (he : s.Ended)
    {n : Nat} (hn : s.remaining < n) :
    iterate (suffixTurn run low) n left setup s =
      (iterate (suffixTurn run tight) n left >>= fun left => continuation run left low)
        setup s := by
  induction n generalizing left s with
  | zero => exact absurd hn (Nat.not_lt_zero _)
  | succ n ih =>
    rcases suffixTurn_tight h with hfinish | ⟨heq, hne⟩
    · rw [bind_of_done (iterate_finish hfinish)]
      exact suffixes_turns ht he hn (Nat.lt_succ_self _)
    cases ho : suffixTurn run tight left setup s with
    | stopped why s' =>
      rw [iterate_stopped (heq.trans ho), bind_of_stopped (iterate_stopped ho)]
    | done turn s' =>
      cases turn with
      | finish last => exact absurd ho (hne last s')
      | again left' =>
        have hp := suffixTurn_passes ht he ho
        rw [iterate_again (heq.trans ho), ih (he.grow (kept_of_done ho).toGrown) (by omega)]
        exact (bind_of_eq (iterate_again ho)).symm

/-- The suffixes that bind more tightly than `low` are first those that also bind more tightly than
`tight`, and then the rest. -/
theorem continuation_split (ht : setup.table = .standard) (h : low.rank ≤ tight.rank)
    (he : s.Ended) :
    continuation run left low setup s =
      (continuation run left tight >>= fun left => continuation run left low) setup s :=
  suffixes_split ht h he (Nat.lt_succ_self _)

end

/-! ## Levels of nesting -/

theorem MoreRoom.leave_left {setup : Setup} {s s' : State} (h : MoreRoom setup setup s s')
    (hd : s'.depth = s.leave.depth) : MoreRoom setup setup s.leave s' :=
  ⟨h.same, by rw [hd]⟩

/-- What follows a step one level deeper does the same outside, where there is more room. -/
theorem nested_bind_refines {step : Parse α} {next next' : α → Parse β} {setup : Setup}
    [Keeps step] [∀ a, Keeps (next a)] [∀ a, Keeps (next' a)]
    (h : ∀ a, Refines setup setup (next a) (next' a)) (s : State) :
    (nested (step >>= next) setup s).Refines setup setup ((nested step >>= next') setup s) := by
  by_cases hd : s.depth < setup.maxDepth
  case neg =>
    rw [nested_apply, if_neg hd]
    exact .givesUp rfl
  rw [nested_apply, if_pos hd]
  cases ho : step setup s.deeper with
  | stopped why s₁ =>
    rw [bind_of_stopped ho]
    cases why with
    | error error =>
      have hn : nested step setup s = .stopped (.error error) s₁.leave := by
        rw [nested_apply, if_pos hd, ho]
      rw [bind_of_stopped hn]
      exact .error ⟨rfl, Nat.le_refl _⟩
    | missingNode | exhausted => exact .givesUp trivial
  | done a s₁ =>
    rw [bind_of_done ho, bind_of_done (nested_done.2 ⟨hd, s₁, ho, rfl⟩)]
    have hroom : MoreRoom setup setup s₁ s₁.leave :=
      ⟨rfl, Nat.add_le_add_left (Nat.sub_le _ _) _⟩
    have hnext := (h a).outcome hroom
    have hk := keeps (next a) setup s₁
    have hk' := keeps (next' a) setup s₁.leave
    have hleave {s₂ s₃ : State} (hk : Kept s₁ s₂) (hk' : Kept s₁.leave s₃) :
        s₃.depth = s₂.leave.depth := hk'.depth.trans (congrArg (· - 1) hk.depth.symm)
    generalize next a setup s₁ = outcome, next' a setup s₁.leave = outcome' at hnext hk hk' ⊢
    cases hnext with
    | done hs => exact .done (hs.leave_left (hleave hk hk'))
    | error hs => exact .error (hs.leave_left (hleave hk hk'))
    | @givesUp outcome _ hg =>
      match outcome, hg with
      | .stopped (.error _) _, hg => exact .givesUp hg
      | .stopped (.missingNode _) _, _ | .stopped .exhausted _, _ => exact .givesUp trivial

theorem nested_congr {step step' : Parse α} {setup : Setup} {s : State}
    (h : step setup s.deeper = step' setup s.deeper) :
    nested step setup s = nested step' setup s := by
  rw [nested_apply, nested_apply, h]

/-! ## Calls -/

theorem Outcome.done_or_error {outcome : Outcome α} (h : ¬outcome.GivesUp) :
    (∃ a s, outcome = .done a s) ∨ ∃ error s, outcome = .stopped (.error error) s := by
  match outcome, h with
  | .done a s, _ => exact .inl ⟨a, s, rfl⟩
  | .stopped (.error error) s, _ => exact .inr ⟨error, s, rfl⟩
  | .stopped (.missingNode _) _, h | .stopped .exhausted _, h => exact absurd trivial h

theorem Outcome.IsSettled.not_givesUp {outcome : Outcome α} (h : outcome.IsSettled)
    (hm : ¬outcome.MeetsLimit) : ¬outcome.GivesUp := fun hg =>
  match outcome, h, hg with
  | .stopped (.error _) _, _, hg => hm hg

section
variable {setup : Setup} {s : State} {rule : Rule} {n n' : Nat}

theorem runWith_not_givesUp (ht : setup.table = .standard) (hf : Fits s rule)
    (hl : ∀ left ∈ rule.left, left < s.nodes.size) (hs : s.Roomy setup rule.spare)
    (hn : 4 * s.remaining + 3 < n) : ¬(Rule.runWith n rule setup s).GivesUp :=
  have hcalls := Nat.lt_of_le_of_lt (Nat.add_le_add_left rule.rank_le _) hn
  (runWith_isSettled ht hs.ended hf hl hcalls).not_givesUp ((spacious_runWith n).unlimited ht hf hs)

/-- Fuel beyond what the calls need makes no difference. -/
theorem runWith_eq_of_le (ht : setup.table = .standard) (hf : Fits s rule)
    (hl : ∀ left ∈ rule.left, left < s.nodes.size) (hs : s.Roomy setup rule.spare)
    (hn : 4 * s.remaining + 3 < n) (hle : n ≤ n') :
    Rule.runWith n' rule setup s = Rule.runWith n rule setup s :=
  ((runWith_refines ht hle rule).outcome ⟨rfl, Nat.le_refl _⟩).eq
    (runWith_not_givesUp ht hf hl hs hn) (keeps (Rule.runWith n rule) setup s)
    (keeps (Rule.runWith n' rule) setup s)

theorem fuel_gt : 4 * s.remaining + 3 < Rule.fuel setup s := by
  unfold Rule.fuel
  omega

theorem runWith_eq_parse (ht : setup.table = .standard) (hf : Fits s rule)
    (hl : ∀ left ∈ rule.left, left < s.nodes.size) (hs : s.Roomy setup rule.spare)
    (hn : 4 * s.remaining + 3 < n) : Rule.runWith n rule setup s = rule.parse setup s := by
  rcases Nat.le_total n (Rule.fuel setup s) with hle | hle
  · exact (runWith_eq_of_le ht hf hl hs hn hle).symm
  · exact runWith_eq_of_le ht hf hl hs fuel_gt hle

end

/-! ## Expressions -/

section
variable {setup : Setup} {s : State} {low tight : Power} {n : Nat}

theorem resumed_refines (ht : setup.table = .standard) (h : low.rank ≤ tight.rank)
    (he : s.Ended) (n : Nat) :
    (Rule.runWith (n + 2) (.expression low) setup s).Refines setup setup
      ((Rule.runWith (n + 2) (.expression tight) >>= fun left =>
        Rule.runWith (n + 2) (.continuation left low)) setup s) := by
  have hsplit : (operand (Rule.runWith (n + 1)) >>= fun left =>
        Rule.runWith (n + 1) (.continuation left low)) setup s.deeper =
      ((operand (Rule.runWith (n + 1)) >>= fun left =>
        Rule.runWith (n + 1) (.continuation left tight)) >>= fun left =>
        Rule.runWith (n + 1) (.continuation left low)) setup s.deeper := by
    cases ho : operand (Rule.runWith (n + 1)) setup s.deeper with
    | stopped why s₁ => rw [bind_of_stopped ho, bind_of_stopped (bind_of_stopped ho)]
    | done left s₁ =>
      have he₁ : s₁.Ended := State.Ended.grow (kept_of_done ho).toGrown he
      rw [bind_of_done ho]
      exact (continuation_split ht h he₁).trans (bind_of_eq (bind_of_done ho).symm)
  have hnested : Rule.runWith (n + 2) (.expression low) setup s =
      nested ((operand (Rule.runWith (n + 1)) >>= fun left =>
        Rule.runWith (n + 1) (.continuation left tight)) >>= fun left =>
        Rule.runWith (n + 1) (.continuation left low)) setup s := nested_congr hsplit
  rw [hnested]
  exact nested_bind_refines (fun left => runWith_refines ht (Nat.le_succ _) _) s

/-- An expression can be read up to the first suffix that does not bind more tightly than `tight`,
and then resumed. -/
theorem expression_resumed (ht : setup.table = .standard) (h : low.rank ≤ tight.rank)
    (hs : s.Roomy setup 0) (hn : 4 * s.remaining + 3 < n) :
    (Rule.runWith n (.expression tight) >>= fun left => Rule.runWith n (.continuation left low))
        setup s = Rule.runWith n (.expression low) setup s := by
  obtain ⟨n, rfl⟩ : ∃ m, n = m + 2 := ⟨n - 2, by omega⟩
  have hg : ¬(Rule.runWith (n + 2) (.expression low) setup s).GivesUp :=
    runWith_not_givesUp ht trivial (List.forall_mem_nil _) hs hn
  exact (resumed_refines ht h hs.ended n).eq hg (keeps _ setup s) (keeps _ setup s)

end

/-! ## `yield` and `return` -/

section
variable {run : Rule → Parse NodeId} {setup : Setup} {s : State}

theorem returnStatement_apply :
    returnStatement run setup s = (value run >>= fun value =>
      pushFrom s.current.span.start (.returnStatement value)) setup s.advance := rfl

/-- Where no statement list follows its operand, `yield` resumes the expression. -/
theorem yieldStatement_apply (hk : s.kind = .yieldWord)
    (h : ∀ operand s', typeExpression run setup s.advance = .done operand s' →
      continuesAsAttributes setup.table s' = false) :
    yieldStatement run setup s = ((typeExpression run >>= fun operand =>
      run (.continuation operand .lowest)) >>= fun value =>
        pushFrom s.current.span.start (.yieldStatement value)) setup s.advance := by
  unfold yieldStatement
  rw [bind_of_done (expect_done.2 ⟨hk, rfl, rfl⟩)]
  cases ho : typeExpression run setup s.advance with
  | stopped why s' => rw [bind_of_stopped ho, bind_of_stopped (bind_of_stopped ho)]
  | done operand s' =>
    rw [bind_of_done ho]
    change (if continuesAsAttributes setup.table s' then _ else _ : Parse NodeId) setup s' = _
    rw [h operand s' ho]
    refine bind_of_eq ?_
    rw [bind_of_done ho]

/-- Behind the current token no level is lacking, if there are as many as tokens ahead. -/
theorem roomy_advance (he : s.Ended) (ht : s.hasTokens)
    (hd : s.depth + s.ahead.length ≤ setup.maxDepth) : s.advance.Roomy setup 0 where
  ended := (he.advance ht).2
  levels := by
    have hlt := he.remaining_advance ht
    have hdepth := (Kept.advance s).depth
    simp only [State.remaining] at hlt ⊢
    omega

/-- What comes after a token does not depend on which it is, unless it ends the input. -/
theorem advance_replaced (he : s.Ended) (ht : s.hasTokens) {current : Token}
    (hk : current.kind ≠ .eof) (hs : current.span = s.current.span) :
    State.advance { s with current } = s.advance := by
  have hlt := he.remaining_advance ht
  obtain ⟨token, ahead, nodes, depth, lastStop⟩ := s
  cases ahead with
  | nil => exact absurd hlt (Nat.lt_irrefl _)
  | cons next ahead =>
    have hc : (current.kind != .eof) = true := bne_iff_ne.2 hk
    have ht : (token.kind != .eof) = true := ht
    simp only [State.advance, State.hasTokens, State.kind, hc, ht, hs, if_true]

end

/-- Where no attribute list follows its operand, `yield` reads what `return` reads, and fails where
`return` fails: the operand is read as a type and resumed as the loosest of expressions, and that
is an expression.  Only there must be levels of nesting for the tokens left, since `yield` resumes
the expression one level further out than `return` reads it. -/
theorem yieldStatement_returns (file : String) (options : Options) {s : State} (he : s.Ended)
    (hk : s.kind = .yieldWord) (hd : s.depth + s.ahead.length ≤ options.maxDepth)
    (ha : ∀ operand s',
      typeExpression Rule.parse (.standard file options) s.advance = .done operand s' →
        continuesAsAttributes .standard s' = false) (word : String) :
    let setup := Setup.standard file options
    let returned := { s with current := { s.current with kind := .returnWord, value := word } }
    (∃ error s',
      (Rule.form .yieldStatement).parse setup s = .stopped (.error error) s' ∧
      (Rule.form .returnStatement).parse setup returned = .stopped (.error error) s') ∨
    ∃ (value : NodeId) (span : Span) (s' : State),
      (Rule.form .yieldStatement).parse setup s =
        .done s'.nodes.size (s'.push ⟨.yieldStatement value, span⟩) ∧
      (Rule.form .returnStatement).parse setup returned =
        .done s'.nodes.size (s'.push ⟨.returnStatement value, span⟩) := by
  intro setup returned
  have ht : s.hasTokens := State.hasTokens_of_kind hk (by decide)
  have hlt := he.remaining_advance ht
  have hnext : returned.advance = s.advance := advance_replaced he ht nofun rfl
  have hroomy : s.advance.Roomy setup 0 := roomy_advance he ht hd
  obtain ⟨n, hn⟩ : ∃ n, Rule.fuel setup s = n + 1 :=
    Nat.exists_eq_add_one.2 (Nat.zero_lt_of_lt fuel_gt)
  have hfuel : 4 * s.advance.remaining + 3 < n := by
    have := @fuel_gt setup s
    omega
  have hoperand : typeExpression (Rule.runWith n) setup s.advance =
      typeExpression Rule.parse setup s.advance :=
    runWith_eq_parse rfl trivial (List.forall_mem_nil _) hroomy hfuel
  have hyield : (Rule.form .yieldStatement).parse setup s =
      (value (Rule.runWith n) >>= fun value =>
        pushFrom s.current.span.start (.yieldStatement value)) setup s.advance := by
    rw [Rule.parse, hn]
    refine (yieldStatement_apply hk fun operand s' ho => ha operand s' (hoperand ▸ ho)).trans ?_
    exact bind_of_eq (expression_resumed rfl (by decide) hroomy hfuel)
  have hreturn : (Rule.form .returnStatement).parse setup returned =
      (value (Rule.runWith n) >>= fun value =>
        pushFrom s.current.span.start (.returnStatement value)) setup s.advance := by
    rw [Rule.parse, show Rule.fuel setup returned = n + 1 from hn, ← hnext]
    exact returnStatement_apply
  rw [hyield, hreturn]
  have hg : ¬(value (Rule.runWith n) setup s.advance).GivesUp :=
    runWith_not_givesUp rfl trivial (List.forall_mem_nil _) hroomy hfuel
  rcases Outcome.done_or_error hg with ⟨value, s', ho⟩ | ⟨error, s', ho⟩
  · rw [bind_of_done ho, bind_of_done ho]
    exact .inr ⟨value, s'.spanFrom s.current.span.start, s', rfl, rfl⟩
  · rw [bind_of_stopped ho, bind_of_stopped ho]
    exact .inl ⟨error, s', rfl, rfl⟩

set_option maxRecDepth 20000 in
/-- In `yield a + b < c` the operand is `a + b`. -/
theorem yieldStatement_returns_comparison :
    let tokens : List Token :=
      [⟨.yieldWord, "yield", ⟨0, 5⟩⟩, ⟨.identifier, "a", ⟨6, 7⟩⟩, ⟨.plus, "+", ⟨8, 9⟩⟩,
        ⟨.identifier, "b", ⟨10, 11⟩⟩, ⟨.less, "<", ⟨12, 13⟩⟩, ⟨.identifier, "c", ⟨14, 15⟩⟩,
        .endAt (.emptyAt 15)]
    let setup := Setup.standard "a.sm" {}
    let s := State.start tokens
    let returned := { s with current := { s.current with kind := .returnWord, value := "return" } }
    (∃ operand s', typeExpression Rule.parse setup s.advance = .done operand s' ∧
      s'.kind = .less ∧ continuesAsAttributes .standard s' = false) ∧
    ∃ (value : NodeId) (span : Span) (s' : State),
      (Rule.form .yieldStatement).parse setup s =
        .done s'.nodes.size (s'.push ⟨.yieldStatement value, span⟩) ∧
      (Rule.form .returnStatement).parse setup returned =
        .done s'.nodes.size (s'.push ⟨.returnStatement value, span⟩) := by
  intro tokens setup s returned
  obtain ⟨operand, s', ho, hk, ha⟩ : ∃ operand s',
      typeExpression Rule.parse setup s.advance = .done operand s' ∧ s'.kind = .less ∧
        continuesAsAttributes .standard s' = false := ⟨_, _, rfl, rfl, rfl⟩
  refine ⟨⟨operand, s', ho, hk, ha⟩, ?_⟩
  have hattributes : ∀ id s₁, typeExpression Rule.parse setup s.advance = .done id s₁ →
      continuesAsAttributes .standard s₁ = false := by
    intro id s₁ h
    cases ho.symm.trans h
    exact ha
  have hdone : (match (Rule.form .yieldStatement).parse setup s with
      | .done .. => true
      | .stopped .. => false) = true := by decide +kernel
  have he : s.Ended := State.start_ended tokens
  have hword : s.kind = .yieldWord := rfl
  have hdepth : s.depth + s.ahead.length ≤ Options.maxDepth {} := by decide
  clear_value s
  refine (yieldStatement_returns "a.sm" {} he hword hdepth hattributes
    "return").resolve_left ?_
  rintro ⟨error, s₁, hstopped, -⟩
  rw [hstopped] at hdone
  cases hdone

end Parse
end Smaug
