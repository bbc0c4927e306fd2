import Mathlib
import Smaug.Proofs.Parse.Settled.Rules
import Smaug.Proofs.Parse.Trim.Basic

/-! # Rules without what stands behind the end

A rule looks at the token after the current one in three places, and the current one is never the
end of the input there, but for a name that is missing.  So a rule does the same where all that
stands behind the end is taken away.
-/

namespace Smaug.Parse

open Grammar

instance : Trims primary primary := by
  refine trims_bind inferInstance fun token => ?_
  generalize token.kind = kind
  split
  · split <;> infer_instance
  all_goals infer_instance

instance : Trims importStatement importStatement := by unfold importStatement; infer_instance

instance (left : NodeId) : Trims (member left) (member left) := by unfold member; infer_instance

instance : Trims externalModule externalModule := by unfold externalModule; infer_instance

instance : Trims external external := by unfold external; infer_instance

/-- Two meanings of the rules under which a name that is missing at the end of the input is missed
alike, whatever was to follow it. -/
class TrimsName (run run' : Rule → Parse NodeId) : Prop where
  enum {setup : Setup} {s : State} (h : s.hasTokens = false) (allowDefault : Bool) :
    (run (.pattern .identifier allowDefault) setup s.trim).IsExhausted ∨
      run (.pattern .identifier allowDefault) setup s.trim =
        (run' (.pattern .enum allowDefault) setup s).trim

section
variable {run run' : Rule → Parse NodeId} [∀ rule, Trims (run rule) (run' rule)]
set_option synthInstance.maxSize 512

instance : Trims (value run) (value run') := inferInstanceAs (Trims (run _) (run' _))

instance : Trims (typeExpression run) (typeExpression run') :=
  inferInstanceAs (Trims (run _) (run' _))

instance : Trims (operand run) (operand run') := by
  refine trims_bind inferInstance fun kind => trims_bind inferInstance fun table => ?_
  split <;> infer_instance

instance (power : Power) : Trims (expression run power) (expression run' power) := by
  unfold expression; infer_instance

instance (left : NodeId) (power : Power) :
    Trims (continuation run left power) (continuation run' left power) := by
  refine trims_loop (fun left => ?_) left
  refine trims_bind inferInstance fun table => trims_bind inferInstance fun kind => ?_
  split <;> infer_instance

instance : Trims (unary run) (unary run') := by unfold unary; infer_instance

instance (left : NodeId) (power : Power) :
    Trims (binary run left power) (binary run' left power) := by
  refine trims_bind inferInstance fun kind => ?_
  split <;> infer_instance

instance (left : NodeId) : Trims (call run left) (call run' left) := by unfold call; infer_instance

instance (left : NodeId) : Trims (index run left) (index run' left) := by
  unfold index; infer_instance

instance : Trims (grouping run) (grouping run') := by unfold grouping; infer_instance

instance (construct : String) : Trims (tuple run construct) (tuple run' construct) := by
  unfold tuple; infer_instance

instance : Trims (array run) (array run') := by unfold array; infer_instance

instance (construct : String) (opening : Span) :
    Trims (bracedStatements run construct opening) (bracedStatements run' construct opening) := by
  unfold bracedStatements; infer_instance

instance : Trims (block run) (block run') := by unfold block; infer_instance

instance (allowDefault : Bool) : Trims (pattern run allowDefault) (pattern run' allowDefault) := by
  unfold pattern
  have (form : Option PatternForm) : Trims (match form with
      | some form => run (.pattern form allowDefault)
      | none => do refuse (← misplaced .pattern)) (match form with
      | some form => run' (.pattern form allowDefault)
      | none => do refuse (← misplaced .pattern)) := by
    split <;> infer_instance
  infer_instance

instance : Trims (restPattern run) (restPattern run') := by unfold restPattern; infer_instance

instance [hn : TrimsName run run'] (allowDefault : Bool) :
    Trims (namedPattern run allowDefault) (namedPattern run' allowDefault) where
  outcome setup s := by
    have hi := trims (run (.pattern .identifier allowDefault))
      (run' (.pattern .identifier allowDefault)) setup s
    have he := trims (run (.pattern .enum allowDefault))
      (run' (.pattern .enum allowDefault)) setup s
    change ((if s.trim.peek 1 = .openParen then run (.pattern .enum allowDefault)
        else run (.pattern .identifier allowDefault)) setup s.trim).IsExhausted ∨
      (if s.trim.peek 1 = .openParen then run (.pattern .enum allowDefault)
        else run (.pattern .identifier allowDefault)) setup s.trim =
      ((if s.peek 1 = .openParen then run' (.pattern .enum allowDefault)
        else run' (.pattern .identifier allowDefault)) setup s).trim
    cases ht : s.hasTokens with
    | true =>
      rw [State.trim_peek ht]
      split
      · exact he
      · exact hi
    | false =>
      have hp : s.trim.peek 1 ≠ .openParen := by
        have hk : s.kind = .eof := by simpa [State.hasTokens] using ht
        have hk' : s.current.kind = .eof := hk
        simp [State.trim, ht, State.peek, hk']
      rw [if_neg hp]
      split
      · exact hn.enum ht allowDefault
      · exact hi

instance : Trims (annotatedType run) (annotatedType run') := by
  unfold annotatedType; infer_instance

instance (allowDefault : Bool) :
    Trims (identifierPattern run allowDefault) (identifierPattern run' allowDefault) := by
  unfold identifierPattern; infer_instance

instance : Trims (tuplePattern run) (tuplePattern run') := by unfold tuplePattern; infer_instance

instance : Trims (enumPattern run) (enumPattern run') := by unfold enumPattern; infer_instance

instance : Trims (literalPattern run) (literalPattern run') := by
  unfold literalPattern; infer_instance

instance : Trims (attributeList run) (attributeList run') := by
  unfold attributeList; infer_instance

instance : Trims (signatureAttributes run) (signatureAttributes run') := by
  have : Trims (look fun s => s.kind == .yieldWord || s.kind == .comma)
      (look fun s => s.kind == .yieldWord || s.kind == .comma) := trims_look fun _ => rfl
  unfold signatureAttributes; infer_instance

instance : Trims (signature run) (signature run') := by unfold signature; infer_instance

instance : Trims (statement run) (statement run') := by
  refine trims_bind inferInstance fun table => trims_bind inferInstance fun kind => ?_
  split <;> infer_instance

instance : Trims (statementOrBlock run) (statementOrBlock run') := by
  unfold statementOrBlock; infer_instance

instance : Trims (elseBranch run) (elseBranch run') := by unfold elseBranch; infer_instance

instance (start : Nat) : Trims (letVariable run start) (letVariable run' start) := by
  unfold letVariable; infer_instance

instance : Trims (doStatement run) (doStatement run') := by unfold doStatement; infer_instance

instance : Trims (returnStatement run) (returnStatement run') := by
  unfold returnStatement; infer_instance

instance : Trims (statementList run) (statementList run') := by
  unfold statementList; infer_instance

instance : Trims (moreAttributes run) (moreAttributes run') := by
  unfold moreAttributes; infer_instance

theorem continuesAsAttributes_trim (table : Table) (s : State) :
    continuesAsAttributes table s.trim = continuesAsAttributes table s := by
  unfold continuesAsAttributes
  rw [State.trim_kind]
  split
  · rfl
  iterate 2
    rename_i hk
    rw [State.trim_peek (State.hasTokens_of_kind hk (by decide))]
  · rfl

instance : Trims (yieldStatement run) (yieldStatement run') := by
  have (table : Table) : Trims (look (continuesAsAttributes table))
      (look (continuesAsAttributes table)) := trims_look (continuesAsAttributes_trim table)
  unfold yieldStatement; infer_instance

instance : Trims (ifStatement run) (ifStatement run') := by unfold ifStatement; infer_instance

instance [∀ rule, Keeps (run rule)] [∀ rule, Keeps (run' rule)] :
    Trims (rangeHead run) (rangeHead run') where
  outcome setup s := by
    have hp := trims (run (.pattern .any false)) (run' (.pattern .any false)) setup s.advance
    rw [s.trim_advance] at hp
    rw [rangeHead_apply, rangeHead_apply, State.trim_kind]
    by_cases ho : s.kind = .openParen
    · rw [if_pos ho, if_pos ho]
      rcases hp with ⟨s', hp⟩ | hp
      · exact .inl ⟨s', by rw [hp]⟩
      · right
        rw [hp]
        cases run' (.pattern .any false) setup s.advance with
        | done pattern s₁ =>
          have hk : s₁.trim.kind = s₁.kind := rfl
          by_cases hi : s₁.kind = .inWord
          · simp only [Outcome.trim, hk, hi, if_true, s₁.trim_advance, State.trim_current]
          · simp only [Outcome.trim, hk, hi, if_false]
        | stopped why s₁ => cases why <;> rfl
    · rw [if_neg ho, if_neg ho]
      exact .inr rfl

instance [∀ rule, Keeps (run rule)] [∀ rule, Keeps (run' rule)] :
    Trims (eachStatement run) (eachStatement run') := by
  refine trims_bind inferInstance fun token => trims_bind inferInstance fun head => ?_
  split <;> infer_instance

instance (note : String) (expected : List Expected) :
    Trims (body run note expected) (body run' note expected) := by
  refine trims_bind inferInstance fun kind => ?_
  split <;> infer_instance

instance : Trims (casePattern run) (casePattern run') := by unfold casePattern; infer_instance

instance : Trims (matchCase run) (matchCase run') := by unfold matchCase; infer_instance

instance : Trims (matchStatement run) (matchStatement run') := by
  unfold matchStatement; infer_instance

instance (start : Nat) : Trims (letFunction run start) (letFunction run' start) := by
  unfold letFunction; infer_instance

instance (start : Nat) : Trims (letStruct run start) (letStruct run' start) := by
  unfold letStruct; infer_instance

instance (start : Nat) : Trims (letEnum run start) (letEnum run' start) := by
  unfold letEnum; infer_instance

/-- What `let` declares is told by the token after a name. -/
theorem letName_trims (start : Nat) {setup : Setup} {s : State} (ht : s.hasTokens) :
    let declared (run : Rule → Parse NodeId) : Parse NodeId := do
      if (← look (·.peek 1)) = .openParen then letFunction run start else letVariable run start
    (declared run setup s.trim).IsExhausted ∨
      declared run setup s.trim = (declared run' setup s).trim := by
  intro declared
  change ((if s.trim.peek 1 = .openParen then letFunction run start else letVariable run start)
      setup s.trim).IsExhausted ∨
    (if s.trim.peek 1 = .openParen then letFunction run start else letVariable run start)
        setup s.trim =
      ((if s.peek 1 = .openParen then letFunction run' start else letVariable run' start)
        setup s).trim
  rw [State.trim_peek ht]
  split
  · exact trims (letFunction run start) (letFunction run' start) setup s
  · exact trims (letVariable run start) (letVariable run' start) setup s

instance : Trims (letStatement run) (letStatement run') := by
  refine trims_bind inferInstance fun token => ⟨fun setup s => ?_⟩
  refine trims_bind_at (trims (look State.kind) (look State.kind) setup s) fun kind s' hl => ?_
  obtain ⟨hk, rfl⟩ := look_done.1 hl
  cases kind with
  | structWord => exact trims (letStruct run _) (letStruct run' _) setup s'
  | enumWord => exact trims (letEnum run _) (letEnum run' _) setup s'
  | identifier => exact letName_trims _ (State.hasTokens_of_kind hk.symm (by decide))
  | builtIn => exact letName_trims _ (State.hasTokens_of_kind hk.symm (by decide))
  | _ => exact trims (letVariable run _) (letVariable run' _) setup s'

/-! ## Every rule -/

theorem ruleBody_trims [∀ rule, Keeps (run rule)] [∀ rule, Keeps (run' rule)]
    [TrimsName run run'] (rule : Rule) : Trims (rule.body run) (rule.body run') := by
  cases rule with
  | form form => cases form <;> unfold Rule.body Form.body <;> infer_instance
  | suffix suffix left power => cases suffix <;> unfold Rule.body Suffix.body <;> infer_instance
  | pattern form => cases form <;> unfold Rule.body PatternForm.body <;> infer_instance
  | _ => unfold Rule.body; infer_instance

end

/-- At the end of the input a name is missed. -/
theorem name_end {setup : Setup} {s : State} (h : s.hasTokens = false) (next : Name → Parse α) :
    (name >>= next) setup s = (misplaced .identifier >>= fun error => refuse error) setup s := by
  have hk : s.current.kind = .eof := by simpa [State.hasTokens, State.kind] using h
  have hn : s.current.isName = false := by simp [Token.isName, hk]
  simp only [name, Bind.bind, Parse.bind, look, hn, Bool.false_eq_true, if_false]
  cases misplaced .identifier setup s <;> rfl

theorem trimsName_runWith {n n' : Nat} (hn : n ≤ n') :
    TrimsName (Rule.runWith n) (Rule.runWith n') where
  enum {setup s} h allowDefault := by
    cases n with
    | zero => exact .inl ⟨_, rfl⟩
    | succ n =>
      obtain ⟨n', rfl⟩ : ∃ m, n' = m + 1 := ⟨n' - 1, by omega⟩
      have hm : Trims (misplaced .identifier >>= fun error => refuse error : Parse NodeId)
          (misplaced .identifier >>= fun error => refuse error) := inferInstance
      have hi : Rule.runWith (n + 1) (.pattern .identifier allowDefault) setup s.trim = _ :=
        name_end (s := s.trim) h _
      have he : Rule.runWith (n' + 1) (.pattern .enum allowDefault) setup s = _ := name_end h _
      rw [hi, he]
      exact hm.outcome setup s

/-- With something behind the end of the input the calls of rules may nest deeper. -/
theorem runWith_trims {n n' : Nat} (hn : n ≤ n') (rule : Rule) :
    Trims (Rule.runWith n rule) (Rule.runWith n' rule) := by
  induction n generalizing n' rule with
  | zero => exact trims_exhausted
  | succ n ih =>
    obtain ⟨n', rfl⟩ : ∃ m, n' = m + 1 := ⟨n' - 1, by omega⟩
    have hle := Nat.le_of_succ_le_succ hn
    have (rule : Rule) : Trims (Rule.runWith n rule) (Rule.runWith n' rule) := ih hle rule
    have := trimsName_runWith hle
    exact ruleBody_trims rule

theorem Outcome.IsExhausted.not_isSettled {outcome : Outcome α} (h : outcome.IsExhausted) :
    ¬outcome.IsSettled := by
  obtain ⟨s, rfl⟩ := h
  exact id

/-- A rule does the same where all that stands behind the end of the input is taken away. -/
theorem parse_trim {setup : Setup} (ht : setup.table = .standard) {rule : Rule} {s : State}
    (he : s.Ended) (hf : Fits s rule) (hl : ∀ left ∈ rule.left, left < s.nodes.size) :
    rule.parse setup s.trim = (rule.parse setup s).trim := by
  have hn : Rule.fuel setup s.trim ≤ Rule.fuel setup s := by
    have := s.trim_remaining_le
    unfold Rule.fuel
    rw [State.trim_depth]
    omega
  have hset : (rule.parse setup s.trim).IsSettled :=
    parse_isSettled ht he.trim hf hl
  exact ((runWith_trims hn rule).outcome setup s).resolve_left fun h => h.not_isSettled hset

end Smaug.Parse
