import Smaug.Proofs.Parse.Credit.Basic

/-! # What rules need and earn

Only patterns and signatures need a byte in advance: a literal pattern of one byte is two nodes, and
the signature `()` two nodes of two bytes, with a third for what it belongs to.  Whatever calls them
has passed a word or a delimiter by then.  The word of a statement is two bytes wide at least, and
pays for the node of the statement and for a pattern in it.
-/

namespace Smaug

/-- The credit that a rule needs. -/
def Rule.cost : Rule → Nat
  | .pattern .any _ | .pattern .literal _ | .form .signature => 1
  | _ => 0

/-- The credit that a rule adds to what it was given. -/
def Rule.gain : Rule → Nat
  | .tuple _ | .form .array => 1
  | _ => 0

theorem Rule.cost_statement {kind : Token.Kind} {form : Form}
    (h : Table.statements kind = some form) : (Rule.form form).cost = 0 := by
  unfold Table.statements at h
  split at h <;> cases h <;> rfl

theorem Rule.cost_operand {kind : Token.Kind} {form : Form}
    (h : Table.operands kind = some form) : (Rule.form form).cost = 0 := by
  unfold Table.operands at h
  split at h <;> cases h <;> rfl

theorem Rule.cost_pattern (form : PatternForm) (allowDefault : Bool) :
    (Rule.pattern form allowDefault).cost ≤ 1 := by
  cases form <;> simp [Rule.cost]

namespace Parse

open Grammar

class Affords (run : Rule → Parse NodeId) [script : ∀ rule, Script (run rule)] : Prop where
  affords {rule : Rule} {setup : Setup} {s : State} (ht : setup.table = .standard) (hs : s.Sound)
    (hf : Fits s rule) : (script rule).Solvent setup s rule.cost fun _ => rule.gain

section
variable {run : Rule → Parse NodeId} [∀ rule, Script (run rule)] [∀ rule, Keeps (run rule)]
  [Affords run] {n : Nat} {setup : Setup} {s : State}
set_option synthInstance.maxSize 512

section
omit [∀ rule, Keeps (run rule)]

/-- A rule that fits is solvent if there is as much as it needs. -/
theorem rule_solvent {rule : Rule} (ht : setup.table = .standard) (hs : s.Sound) (hf : Fits s rule)
    (hc : rule.cost ≤ n) : (inferInstance : Script (run rule)).Solvent setup s n fun _ => 0 :=
  (Affords.affords ht hs hf).weaken (n - rule.cost) (by omega) fun _ => Nat.zero_le _

theorem covers_rule {rule : Rule} (hf : ∀ s, Fits s rule) (hc : rule.cost ≤ n) :
    Covers n (run rule) := ⟨fun ht hs => rule_solvent ht hs (hf _) hc⟩

theorem pays_rule {rule : Rule} (hf : ∀ s, Fits s rule) (hc : rule.cost = 0) :
    Pays n (run rule) fun _ => n + rule.gain where
  pays {_ s} ht hs := (Affords.affords ht hs (hf s)).weaken n (by omega) fun _ => by omega

end

instance (power : Power) : Covers n (run (.expression power)) :=
  covers_rule (fun _ => trivial) (Nat.zero_le _)

instance : Covers n (value run) := inferInstanceAs (Covers n (run _))

instance : Covers n (typeExpression run) := inferInstanceAs (Covers n (run _))

instance (left : NodeId) (power : Power) : Covers n (run (.continuation left power)) :=
  covers_rule (fun _ => trivial) (Nat.zero_le _)

instance : Covers n (run (.form .statement)) := covers_rule (fun _ => trivial) (Nat.zero_le _)

instance : Covers n (run (.form .block)) := covers_rule (fun _ => trivial) (Nat.zero_le _)

instance : Covers n (run (.form .primary)) := covers_rule (fun _ => trivial) (Nat.zero_le _)

instance : Covers (n + 1) (run (.form .signature)) :=
  covers_rule (fun _ => trivial) (Nat.le_add_left 1 n)

instance (b : Bool) : Covers (n + 1) (run (.pattern .any b)) :=
  covers_rule (fun _ => trivial) (Nat.le_add_left 1 n)

instance (b : Bool) : Covers n (run (.pattern .identifier b)) :=
  covers_rule (fun _ => trivial) (Nat.zero_le _)

instance (b : Bool) : Covers n (run (.pattern .tuple b)) :=
  covers_rule (fun _ => trivial) (Nat.zero_le _)

instance (b : Bool) : Covers n (run (.pattern .enum b)) :=
  covers_rule (fun _ => trivial) (Nat.zero_le _)

instance (construct : String) : Pays n (run (.tuple construct)) fun _ => n + 1 :=
  pays_rule (fun _ => trivial) rfl

instance : Pays n (run (.form .array)) fun _ => n + 1 := pays_rule (fun _ => trivial) rfl

/-! ## Expressions -/

instance (left : NodeId) : Covers n (member left) := by delta member; infer_instance

instance (left : NodeId) : Covers n (call run left) := by delta call; infer_instance

instance (left : NodeId) : Covers n (index run left) := by delta index; infer_instance

instance : Covers n (grouping run) := by delta grouping; infer_instance

instance (construct : String) : Pays 0 (tuple run construct) fun _ => 1 :=
  pays_bind inferInstance fun _ => pays_bind inferInstance fun _ => inferInstance

instance : Pays 0 (array run) fun _ => 1 :=
  pays_bind inferInstance fun _ => pays_bind inferInstance fun _ => inferInstance

instance (construct : String) (opening : Span) :
    Covers n (bracedStatements run construct opening) := by
  delta bracedStatements; infer_instance

instance : Covers n (block run) := by delta block; infer_instance

/-! ## Patterns -/

instance : Covers n (restPattern run) := by delta restPattern; infer_instance

instance (allowDefault : Bool) : Covers n (namedPattern run allowDefault) := by
  delta namedPattern; infer_instance

instance : Covers 0 (annotatedType run) := by delta annotatedType; infer_instance

instance (allowDefault : Bool) : Covers n (identifierPattern run allowDefault) := by
  delta identifierPattern; infer_instance

instance : Covers n (tuplePattern run) := by delta tuplePattern; infer_instance

instance : Covers n (enumPattern run) := by delta enumPattern; infer_instance

instance : Covers (n + 1) (literalPattern run) := by delta literalPattern; infer_instance

instance : Covers n (attributeList run) := by delta attributeList; infer_instance

instance : Covers n (signatureAttributes run) := by delta signatureAttributes; infer_instance

instance : Covers (n + 1) (signature run) := by delta signature; infer_instance

/-! ## Statements -/

instance : Covers n (statementOrBlock run) := by delta statementOrBlock; infer_instance

instance : Covers 0 (elseBranch run) := by delta elseBranch; infer_instance

instance (start : Nat) : Covers (n + 1) (letVariable run start) := by
  delta letVariable; infer_instance

instance : Covers n (statementList run) := by delta statementList; infer_instance

instance : Covers n (moreAttributes run) := by delta moreAttributes; infer_instance

instance : Covers n (yieldStatement run) := by delta yieldStatement; infer_instance

instance (note : String) (expected : List Expected) : Covers n (body run note expected) where
  covers {_ s} ht hs := .look_bind (by
    cases s.kind <;> exact Covers.covers (n := n) ht hs)

instance : Covers (n + 1) (casePattern run) := by delta casePattern; infer_instance

instance : Covers n (matchCase run) := by delta matchCase; infer_instance

instance (start : Nat) : Covers (n + 1) (letFunction run start) := by
  delta letFunction; infer_instance

instance (start : Nat) : Covers n (letStruct run start) := by delta letStruct; infer_instance

instance : Covers n externalModule := by delta externalModule; infer_instance

instance : Covers n external := by delta external; infer_instance

instance (start : Nat) : Covers n (letEnum run start) := by delta letEnum; infer_instance

omit [∀ rule, Keeps (run rule)] in
/-- Where the tokens do not read as the head of a range, the parse goes back to where it was. -/
theorem rangeHead_moments (ht : setup.table = .standard) (hs : s.Sound) (ha : s.Affords 0) :
    ∀ t ∈ (inferInstance : Script (rangeHead run)).trace setup s, s.Paid t := by
  refine Script.mem_bind_trace (fun _ h => nomatch h) fun b s hd => ?_
  obtain ⟨rfl, rfl⟩ := look_done.1 hd
  cases hk : s.kind == .openParen with
  | false => exact fun _ h => nomatch h
  | true =>
    have hg : Grown s s.advance := (Kept.advance s).toGrown
    have ha₁ : s.advance.Affords (0 + 1) := ha.advance_kind hs (beq_iff_eq.1 hk)
    have hp : (inferInstance : Script (run (.pattern .any false))).Solvent setup s.advance 1
        fun _ => 0 := rule_solvent ht (hs.grow hg) trivial (Nat.le_refl 1)
    refine Script.mem_bind_trace (fun _ h => nomatch h) fun mark s hd => ?_
    obtain ⟨rfl, rfl⟩ := look_done.1 hd
    refine Script.mem_bind_trace ((Script.Solvent.advance hs).moments ha) fun _ s₁ hd => ?_
    obtain ⟨rfl, rfl⟩ := advance_done.1 hd
    refine Script.mem_bind_trace (fun t h => .from hg (hp.moments ha₁ t h)) fun head s₂ hd => ?_
    have hp₂ : s.Paid s₂ := .from hg (attempt_state hd ▸ hp.final ha₁)
    -- What the trial has used up comes back with the mark, so only the states count here and not
    -- the credit that is left.
    cases head with
    | none =>
      exact Script.mem_bind_trace (Script.Solvent.reset_moments hp₂.grown ha)
        fun _ _ _ _ h => nomatch h
    | some pattern =>
      have he : (inferInstance : Script (eat .inWord)).Solvent setup s₂ 0 fun _ => 0 :=
        Covers.covers ht (hs.grow hp₂.grown)
      refine Script.mem_bind_trace (fun t h => .from hp₂.grown (he.moments hp₂.affords t h))
        fun b s₃ hd => ?_
      cases b with
      | true => exact fun _ h => nomatch h
      | false =>
        have hg₃ : Grown s s₃ := hp₂.grown.trans (kept_of_done hd).toGrown
        exact Script.mem_bind_trace (Script.Solvent.reset_moments hg₃ ha) fun _ _ _ _ h => nomatch h

instance : Covers 0 (rangeHead run) where
  covers {setup s} ht hs := by
    refine ⟨rangeHead_moments ht hs, fun {k head s'} ha hd => ?_⟩
    obtain ⟨rfl, rfl⟩ | ⟨hk, pattern, s₂, hp, -, rfl, rfl⟩ := rangeHead_done hd
    · exact ha
    · have hs₁ : s.advance.Sound := hs.grow (Kept.advance s).toGrown
      have hs₂ := hs₁.grow (kept_of_done hp).toGrown
      have ha₁ : s.advance.Affords (1 + k) := (ha.advance_kind hs hk).mono (by omega)
      have hr : (inferInstance : Script (run (.pattern .any false))).Solvent setup s.advance 1
          fun _ => 0 := rule_solvent ht hs₁ trivial (Nat.le_refl 1)
      have ha₂ := hr.rest ha₁ hp
      exact (ha₂.advance hs₂).mono (by omega)

/-! ## Rules that count on the token they start with -/

/-- The word of a statement pays for what follows it. -/
theorem word_solvent {kind : Token.Kind} {w : Nat} [kind.Wide w] {next : Token → Parse NodeId}
    [∀ token, Script (next token)] [h : ∀ token, Covers w (next token)]
    (ht : setup.table = .standard) (hs : s.Sound) (hk : s.kind = kind) :
    (inferInstance : Script (advance >>= next)).Solvent setup s 0 fun _ => 0 :=
  .bind (.advance_kind hk hs) fun token _ hd =>
    (Nat.zero_add w).symm ▸ (h token).covers ht (hs.grow (kept_of_done hd).toGrown)

theorem eachStatement_solvent (ht : setup.table = .standard) (hs : s.Sound)
    (hk : s.kind = .eachWord) :
    (inferInstance : Script (eachStatement run)).Solvent setup s 0 fun _ => 0 := by
  refine .bind (.advance_kind hk hs) fun token s₁ hd => ?_
  have hs₁ : s₁.Sound := hs.grow (kept_of_done hd).toGrown
  refine .bind (Pays.pays ht hs₁) fun head s₂ hd => ?_
  have hs₂ : s₂.Sound := hs₁.grow (kept_of_done hd).toGrown
  cases head with
  | some head => exact Covers.covers (n := 2) ht hs₂
  | none => exact Covers.covers (n := 2) ht hs₂

theorem letStatement_solvent (ht : setup.table = .standard) (hs : s.Sound)
    (hk : s.kind = .letWord) :
    (inferInstance : Script (letStatement run)).Solvent setup s 0 fun _ => 0 := by
  refine .bind (.advance_kind hk hs) fun token s₁ hd => ?_
  have hs₁ : s₁.Sound := hs.grow (kept_of_done hd).toGrown
  refine .look_bind ?_
  cases s₁.kind <;> exact Covers.covers (n := 2) ht hs₁

theorem unary_solvent (ht : setup.table = .standard) (hs : s.Sound)
    (hk : Table.operands s.kind = some .unary) :
    (inferInstance : Script (unary run)).Solvent setup s 0 fun _ => 0 := by
  refine .bind (.advance_token (State.hasTokens_of_unary hk) hs) fun token s₁ hd => ?_
  exact Covers.covers (n := 1) ht (hs.grow (kept_of_done hd).toGrown)

theorem binary_solvent {left : NodeId} {power : Power} (ht : setup.table = .standard) (hs : s.Sound)
    (hk : Table.suffixes s.kind = some (power, .binary)) :
    (inferInstance : Script (binary run left power)).Solvent setup s 0 fun _ => 0 := by
  refine .look_bind ?_
  cases BinaryOp.ofKind? s.kind with
  | none => exact .refuse _
  | some op =>
    refine .bind (.advance_token (State.hasTokens_of_suffix hk) hs) fun token s₁ hd => ?_
    exact Covers.covers (n := 1) ht (hs.grow (kept_of_done hd).toGrown)

omit [∀ rule, Script (run rule)] [∀ rule, Keeps (run rule)] [Affords run] in
theorem primary_solvent (ht : setup.table = .standard) (hs : s.Sound) :
    (inferInstance : Script primary).Solvent setup s 0 fun _ => 0 := by
  refine .look_bind ?_
  obtain ⟨⟨kind, value, span⟩, ahead, nodes, depth, lastStop⟩ := s
  cases kind with
  | integer =>
    dsimp only
    cases Text.integer? value with
    | some n => exact .bind (.advance_token rfl hs) fun _ _ _ => .push _ _
    | none => exact .refuse _
  | string => exact .bind (.advance_token rfl hs) fun _ _ _ => .push _ _
  | identifier | builtIn => exact .bind (Pays.pays ht hs) fun _ _ _ => .push _ _
  | _ => exact .refuse _

section
omit [∀ rule, Keeps (run rule)]

theorem statement_solvent (ht : setup.table = .standard) (hs : s.Sound) :
    (inferInstance : Script (statement run)).Solvent setup s 0 fun _ => 0 := by
  refine .given_bind ?_
  refine .look_bind ?_
  rw [ht]
  cases hf : Table.standard.statement s.kind with
  | some form => exact rule_solvent ht hs (fits_statement hf) (Rule.cost_statement hf).le
  | none => exact .refuse _

theorem operand_solvent (ht : setup.table = .standard) (hs : s.Sound) :
    (inferInstance : Script (operand run)).Solvent setup s 0 fun _ => 0 := by
  refine .look_bind ?_
  refine .given_bind ?_
  rw [ht]
  cases hf : Table.standard.operand s.kind with
  | some form => exact rule_solvent ht hs (fits_operand hf) (Rule.cost_operand hf).le
  | none => exact Covers.covers (n := 0) ht hs

theorem pattern_any_solvent {allowDefault : Bool} (ht : setup.table = .standard) (hs : s.Sound) :
    (inferInstance : Script (pattern run allowDefault)).Solvent setup s 1 fun _ => 0 := by
  refine .nested (.given_bind (.look_bind ?_))
  rw [ht]
  cases hf : Table.standard.pattern s.deeper.kind with
  | some form => exact rule_solvent ht ⟨hs.order, hs.wide⟩ (fits_pattern hf) (Rule.cost_pattern _ _)
  | none => exact .refuse _

end

theorem expression_solvent {power : Power} (ht : setup.table = .standard) (hs : s.Sound) :
    (inferInstance : Script (expression run power)).Solvent setup s 0 fun _ => 0 := by
  have hs' : s.deeper.Sound := ⟨hs.order, hs.wide⟩
  refine .nested (.bind (operand_solvent ht hs') fun left s₁ hd => ?_)
  exact Covers.covers (n := 0) ht (hs'.grow (kept_of_done hd).toGrown)

/-- Each suffix pays for itself. -/
theorem continuation_solvent {left : NodeId} {power : Power} (ht : setup.table = .standard)
    (hs : s.Sound) :
    (inferInstance : Script (continuation run left power)).Solvent setup s 0 fun _ => 0 := by
  refine .look_bind ?_
  refine @Script.Solvent.iterate _ _ _ _ _ _ (_) (fun left => ?_) _ (fun left s hs => ?_) _ _ hs
  · refine keeps_bind _ fun table => keeps_bind _ fun kind => ?_
    split <;> infer_instance
  · refine .given_bind (.look_bind ?_)
    rw [ht]
    cases hf : Table.standard.suffix s.kind with
    | some entry =>
      obtain ⟨next, suffix⟩ := entry
      dsimp only
      cases next.tighter power with
      | true =>
        exact .bind (rule_solvent ht hs hf (Nat.zero_le _)) fun _ _ _ => .pure (Nat.le_refl _)
      | false => exact .pure (Nat.le_refl _)
    | none => exact .pure (Nat.le_refl _)

/-! ## All rules -/

theorem ruleBody_solvent {rule : Rule} (ht : setup.table = .standard) (hs : s.Sound)
    (hf : Fits s rule) :
    (inferInstance : Script (rule.body run)).Solvent setup s rule.cost fun _ => rule.gain := by
  match rule, hf with
  | .form .statement, _ => exact statement_solvent ht hs
  | .form .importStatement, hf => exact word_solvent ht hs hf
  | .form .doStatement, hf => exact word_solvent ht hs hf
  | .form .returnStatement, hf => exact word_solvent ht hs hf
  | .form .yieldStatement, _ => exact (inferInstance : Covers 0 (yieldStatement run)).covers ht hs
  | .form .ifStatement, hf => exact word_solvent ht hs hf
  | .form .eachStatement, hf => exact eachStatement_solvent ht hs hf
  | .form .matchStatement, hf => exact word_solvent ht hs hf
  | .form .letStatement, hf => exact letStatement_solvent ht hs hf
  | .form .typeExpression, _ => exact (inferInstance : Covers 0 (typeExpression run)).covers ht hs
  | .form .primary, _ => exact primary_solvent ht hs
  | .form .unary, hf => exact unary_solvent ht hs hf
  | .form .grouping, _ => exact (inferInstance : Covers 0 (grouping run)).covers ht hs
  | .form .array, _ => exact (inferInstance : Pays 0 (array run) fun _ => 1).pays ht hs
  | .form .block, _ => exact (inferInstance : Covers 0 (block run)).covers ht hs
  | .form .signature, _ => exact (inferInstance : Covers 1 (signature run)).covers ht hs
  | .expression _, _ => exact expression_solvent ht hs
  | .continuation .., _ => exact continuation_solvent ht hs
  | .suffix .binary _ _, hf => exact binary_solvent ht hs hf
  | .suffix .call left _, _ => exact (inferInstance : Covers 0 (call run left)).covers ht hs
  | .suffix .index left _, _ => exact (inferInstance : Covers 0 (index run left)).covers ht hs
  | .suffix .member left _, _ => exact (inferInstance : Covers 0 (member left)).covers ht hs
  | .tuple owner, _ => exact (inferInstance : Pays 0 (tuple run owner) fun _ => 1).pays ht hs
  | .pattern .any _, _ => exact pattern_any_solvent ht hs
  | .pattern .rest _, _ => exact (inferInstance : Covers 0 (restPattern run)).covers ht hs
  | .pattern .named b, _ => exact (inferInstance : Covers 0 (namedPattern run b)).covers ht hs
  | .pattern .identifier b, _ =>
    exact (inferInstance : Covers 0 (identifierPattern run b)).covers ht hs
  | .pattern .tuple _, _ => exact (inferInstance : Covers 0 (tuplePattern run)).covers ht hs
  | .pattern .enum _, _ => exact (inferInstance : Covers 0 (enumPattern run)).covers ht hs
  | .pattern .literal _, _ => exact (inferInstance : Covers 1 (literalPattern run)).covers ht hs

end

instance affords_runWith (fuel : Nat) : Affords (Rule.runWith fuel) := by
  induction fuel with
  | zero => exact ⟨fun _ _ _ => .exhausted⟩
  | succ fuel ih => exact ⟨fun ht hs hf => ruleBody_solvent ht hs hf⟩

end Parse
end Smaug
