import Mathlib
import Smaug.Proofs.Parse.Cut.Rules
import Smaug.Proofs.Parse.Expected.Lists

/-! # Rules on two inputs that part

At the place where two inputs part, a rule that passes a token has taken the new one if it was
wanted, or has not wanted it.  Before the place a rule does the same on both, step by step.
-/

namespace Smaug.Parse

open Grammar

/-- What a rule may count on where two parses call it.  A signature is followed in its own way. -/
def Suits (s : State) : Rule → Prop
  | .form .signature => False
  | .pattern .named _ => s.current.isName
  | rule => Fits s rule

theorem suits_statement {s : State} {form : Form} (h : Table.statements s.kind = some form) :
    Suits s (.form form) := by
  unfold Table.statements at h
  split at h <;> cases h <;> first | assumption | trivial

theorem suits_operand {s : State} {form : Form} (h : Table.operands s.kind = some form) :
    Suits s (.form form) := by
  have h' := h
  unfold Table.operands at h'
  split at h' <;> cases h' <;> first | exact h | trivial

theorem suits_pattern {s : State} {form : PatternForm} {allowDefault : Bool}
    (h : Table.patterns s.kind = some form) : Suits s (.pattern form allowDefault) := by
  have h' := h
  unfold Table.patterns at h'
  split at h' <;> rename_i hk <;> cases h'
  · trivial
  · trivial
  all_goals first
    | exact h
    | (have hk : s.current.kind = _ := hk; simp [Suits, Token.isName, hk])

class FollowsRules (f : Fork) (run : Rule → Parse NodeId) : Prop where
  before (rule : Rule) {setup : Setup} (ht : setup.table = .standard) {s s' : State}
    (h : Forked f s s') (hb : f.Before s) (hr : Suits s rule) :
    (run rule setup s).Follows f (run rule setup s')
  continuation (left : NodeId) (power : Power) :
    FollowsAt f (run (.continuation left power)) (run (.continuation left power))
  /-- At a comma a signature looks for attributes.  Where there is none, it has ended. -/
  signature {setup : Setup} (ht : setup.table = .standard) {s s' : State} (h : Forked f s s')
    (hb : f.Before s) :
    (run (.form .signature) setup s).Follows f (run (.form .signature) setup s') ∨
      f.put.kind = .comma ∧ (∃ id s₁, run (.form .signature) setup s = .done id s₁ ∧ f.At s₁) ∧
        ∃ error s₁, run (.form .signature) setup s' = .stopped (.error error) s₁
  /-- Behind a colon that is taken for an operator only an operand is wanted. -/
  colon {setup : Setup} (ht : setup.table = .standard) {s : State} (he : s.Ended)
    (hk : s.kind = .colon) (ha : f.At s.advance) (hi : f.item ≠ .expression) (left : NodeId) :
    (run (.continuation left .lowest) setup s).Excused f ∧
      (run (.suffix .binary left .compare) setup s).Excused f

section
variable {f : Fork} {run : Rule → Parse NodeId} [∀ rule, Keeps (run rule)] [Passing run]
  [Taking run] [FollowsRules f run] {setup : Setup} {s s' : State}
set_option synthInstance.maxSize 2048

theorem follows_rule (rule : Rule) [rule.Free] (hr : ∀ s, Suits s rule) :
    Follows f (run rule) (run rule) :=
  follows_of ⟨fun ht _ _ hs hb => FollowsRules.before _ ht hs hb (hr _)⟩ followsAt_of_takes

instance : Follows f (run (.form .statement)) (run (.form .statement)) :=
  follows_rule _ fun _ => trivial

instance : Follows f (run (.form .primary)) (run (.form .primary)) :=
  follows_rule _ fun _ => trivial

instance : Follows f (run (.form .array)) (run (.form .array)) := follows_rule _ fun _ => trivial

instance : Follows f (run (.form .block)) (run (.form .block)) := follows_rule _ fun _ => trivial

instance (power : Power) : Follows f (run (.expression power)) (run (.expression power)) :=
  follows_rule _ fun _ => trivial

instance (construct : String) : Follows f (run (.tuple construct)) (run (.tuple construct)) :=
  follows_rule _ fun _ => trivial

instance (b : Bool) : Follows f (run (.pattern .any b)) (run (.pattern .any b)) :=
  follows_rule _ fun _ => trivial

instance (b : Bool) : Follows f (run (.pattern .identifier b)) (run (.pattern .identifier b)) :=
  follows_rule _ fun _ => trivial

instance (b : Bool) : Follows f (run (.pattern .tuple b)) (run (.pattern .tuple b)) :=
  follows_rule _ fun _ => trivial

instance (b : Bool) : Follows f (run (.pattern .enum b)) (run (.pattern .enum b)) :=
  follows_rule _ fun _ => trivial

instance (left : NodeId) (power : Power) :
    Follows f (run (.continuation left power)) (run (.continuation left power)) :=
  follows_of ⟨fun ht _ _ hs hb => FollowsRules.before _ ht hs hb trivial⟩
    (FollowsRules.continuation left power)

instance : Follows f (value run) (value run) := inferInstanceAs (Follows f (run _) (run _))

instance : Follows f (typeExpression run) (typeExpression run) :=
  inferInstanceAs (Follows f (run _) (run _))

instance : Follows f path path := by unfold path; infer_instance

/-! ## Expressions -/

theorem operand_before : FollowsBefore f (operand run) (operand run) where
  follows {setup} ht s s' hs hb := by
    cases hf : Table.operands s.kind with
    | some form =>
      have hf' : Table.operands s'.kind = some form := by rw [hs.kind hb, hf]
      rw [operand_of_form ht hf, operand_of_form ht hf']
      exact FollowsRules.before _ ht hs hb (suits_operand hf)
    | none =>
      have hf' : Table.operands s'.kind = none := by rw [hs.kind hb, hf]
      rw [operand_of_none ht hf, operand_of_none ht hf', hs.kind hb]
      exact (followsBefore_ite (followsBefore _ _) (followsBefore_refuse _)).follows ht hs hb

theorem expression_before (power : Power) :
    FollowsBefore f (expression run power) (expression run power) :=
  (operand_before.bind fun _ => inferInstance).nested

theorem primary_before : FollowsBefore f primary primary := by
  refine followsBefore_current fun token => ?_
  split
  · split
    · exact followsBefore_advance.bind fun _ => inferInstance
    · exact followsBefore_refuse _
  · exact followsBefore_advance.bind fun _ => inferInstance
  iterate 2
    exact followsBefore _ _
  · exact followsBefore_refuse _

theorem unary_before : FollowsBefore f (unary run) (unary run) :=
  followsBefore_advance.bind fun _ => inferInstance

theorem binary_before (left : NodeId) (power : Power) :
    FollowsBefore f (binary run left power) (binary run left power) := by
  refine followsBefore_kind fun kind => ?_
  split
  · exact followsBefore_advance.bind fun _ => inferInstance
  · exact followsBefore_refuse _

instance (left : NodeId) : Follows f (call run left) (call run left) := by
  unfold call; infer_instance

instance (left : NodeId) : Follows f (index run left) (index run left) := by
  unfold index; infer_instance

instance (left : NodeId) : Follows f (member left) (member left) := by
  unfold member; infer_instance

/-- Behind the first element a comma is read only where no parenthesis closes. -/
instance : Follows f (grouping run) (grouping run) := by
  refine follows_bind (fun _ => inferInstance) (fun _ => inferInstance) fun opening =>
    follows_bind (fun _ => inferInstance) (fun _ => inferInstance) fun empty => ?_
  split
  · infer_instance
  · refine follows_bind (fun _ => inferInstance) (fun _ => inferInstance) fun first =>
      follows_eat inferInstance ?_ fun hput => ?_
    · exact (followsBefore_expectOr _ _).inside.bind fun _ => inferInstance
    · have : Follows f (expectOr .comma (unexpected [.token .comma, .token .closeParen]))
          (expectOr .comma (unexpected [.token .comma, .token .closeParen])) :=
        follows_expectOr _ _ fun hm => (f.met.kind_of_pair hm).resolve_right hput
      exact followsAt _ _

instance (construct : String) : Follows f (tuple run construct) (tuple run construct) := by
  unfold tuple; infer_instance

instance : Follows f (array run) (array run) := by unfold array; infer_instance

instance (construct : String) (opening : Span) :
    Follows f (bracedStatements run construct opening)
      (bracedStatements run construct opening) := by
  have : Follows f (do
        let statements ← bracedItems (run (.form .statement))
        let _ ← expect .closeCurly
        return statements)
      (do
        let statements ← bracedItems (run (.form .statement))
        let _ ← expect .closeCurly
        return statements) :=
    follows_braced [.statement] fun expected hm token hmet => by
      have hk : token.kind = .doWord := hmet.of_singleton hm
      simp [hk]
  unfold bracedStatements
  infer_instance

instance : Follows f (block run) (block run) := by unfold block; infer_instance

/-! ## Statements -/

theorem importStatement_before : FollowsBefore f importStatement importStatement :=
  followsBefore_advance.bind fun _ => inferInstance

theorem doStatement_before : FollowsBefore f (doStatement run) (doStatement run) :=
  followsBefore_advance.bind fun _ => inferInstance

theorem returnStatement_before : FollowsBefore f (returnStatement run) (returnStatement run) :=
  followsBefore_advance.bind fun _ => inferInstance

instance (start : Nat) : Follows f (letVariable run start) (letVariable run start) := by
  unfold letVariable; infer_instance

instance : Follows f (elseBranch run) (elseBranch run) := by unfold elseBranch; infer_instance

omit [∀ rule, Keeps (run rule)] [Passing run] [Taking run] in
theorem statement_before : FollowsBefore f (statement run) (statement run) where
  follows {setup} ht s s' hs hb := by
    cases hf : Table.statements s.kind with
    | some form =>
      have hf' : Table.statements s'.kind = some form := by rw [hs.kind hb, hf]
      rw [statement_of_form ht hf, statement_of_form ht hf']
      exact FollowsRules.before _ ht hs hb (suits_statement hf)
    | none =>
      have hf' : Table.statements s'.kind = none := by rw [hs.kind hb, hf]
      rw [statement_of_none ht hf, statement_of_none ht hf']
      exact (followsBefore_refuse _).follows ht hs hb

instance : Follows f (statementOrBlock run) (statementOrBlock run) := by
  have hp {setup : Setup} {s : State} (ht : setup.table = .standard) (he : s.Ended)
      (hk : s.kind == .openCurly) : (run (.form .block) setup s).Passed s.remaining :=
    Taking.passed _ ht he (beq_iff_eq.1 hk)
  exact follows_sign isAt_before hp hp (followsBefore _ _) (followsBefore _ _) fun ht hs _ _ =>
    Follows.follows ht hs

theorem body_follows {note : String} {expected : List Expected}
    (hx : ∀ item ∈ expected, ∀ token, item.Met token →
      token.kind = .assignment ∨ token.kind = .openCurly) :
    Follows f (body run note expected) (body run note expected) := by
  have : Takes (body run note expected) expected := takes_body hx
  refine follows_of (followsBefore_kind fun kind => ?_) followsAt_of_takes
  split
  · exact followsBefore_advance.bind fun _ => inferInstance
  · exact followsBefore _ _
  · exact followsBefore_refuse _

/-! ## Cases -/

instance : Follows f (casePattern run) (casePattern run) :=
  follows_of (followsBefore_look (fun hs hb => by rw [hs.current hb]) fun _ => followsBefore _ _)
    followsAt_of_takes

instance : Follows f (matchCase run) (matchCase run) := by
  have : Follows f (body run "match case needs a value or a block"
      [.token .assignment, .token .openCurly]) _ :=
    body_follows fun item hi token hm => hm.kind_of_pair hi
  unfold matchCase
  infer_instance

omit [∀ rule, Keeps (run rule)] [Passing run] [Taking run] [FollowsRules f run] in
theorem collectInto_nextCase {tail : List NodeId → Parse α} (turns : Nat) (items : List NodeId) :
    collectInto (nextCase run) tail (turns + 1) items = (do
      if ← isAt .caseWord then
        let id ← matchCase run
        collectInto (nextCase run) tail turns (id :: items)
      else tail items.reverse) := by
  rw [collectInto_succ]
  simp only [nextCase, bind_assoc, ite_bind, pure_bind]

variable (f run) in
/-- A brace is read behind the cases only where there is no other case. -/
theorem cases_follows : Follows f (do
      let cases ← collect (nextCase run)
      let _ ← expectOr .closeCurly (unexpected [.token .caseWord, .token .closeCurly])
      return cases)
    (do
      let cases ← collect (nextCase run)
      let _ ← expectOr .closeCurly (unexpected [.token .caseWord, .token .closeCurly])
      return cases) := by
  refine follows_turns fun {turns turns'} ih items => ?_
  rw [collectInto_nextCase, collectInto_nextCase]
  have hp {next : NodeId → Parse (List NodeId)} [∀ id, Keeps (next id)] {setup : Setup} {s : State}
      (he : s.Ended) (hk : s.kind == .caseWord) :
      ((matchCase run >>= next) setup s).Passed s.remaining :=
    passed_bind (passed_bind (expect_passed he (beq_iff_eq.1 hk)))
  have hmore : Follows f
      (matchCase run >>= fun id => collectInto (nextCase run) _ turns (id :: items))
      (matchCase run >>= fun id => collectInto (nextCase run) _ turns' (id :: items)) :=
    follows_bind (fun _ => inferInstance) (fun _ => inferInstance) fun id => ih (id :: items)
  refine follows_sign isAt_before (fun _ => hp) (fun _ => hp) (followsBefore _ _)
    ((followsBefore_expectOr _ _).bind fun _ => inferInstance) fun {setup s s'} ht hs hat hk => ?_
  have hput : f.put.kind ≠ .caseWord := by
    rw [← (hs.current_at hat).2]
    exact beq_eq_false_iff_ne.1 hk
  have : Follows f (expectOr .closeCurly (unexpected [.token .caseWord, .token .closeCurly]))
      (expectOr .closeCurly (unexpected [.token .caseWord, .token .closeCurly])) :=
    follows_expectOr _ _ fun hm => (f.met.kind_of_pair hm).resolve_left hput
  exact Follows.follows ht hs

theorem matchStatement_before : FollowsBefore f (matchStatement run) (matchStatement run) := by
  have := cases_follows f run
  rw [matchStatement_eq]
  exact followsBefore_advance.bind fun _ => inferInstance

theorem ifStatement_before : FollowsBefore f (ifStatement run) (ifStatement run) :=
  followsBefore_advance.bind fun _ => inferInstance

/-! ## Patterns -/

omit [∀ rule, Keeps (run rule)] [Passing run] [Taking run] in
theorem pattern_before (allowDefault : Bool) :
    FollowsBefore f (pattern run allowDefault) (pattern run allowDefault) where
  follows {setup} ht s s' hs hb := by
    cases hf : Table.patterns s.kind with
    | some form =>
      have hf' : Table.patterns s'.kind = some form := by rw [hs.kind hb, hf]
      rw [pattern_of_form ht hf, pattern_of_form ht hf']
      exact nested_follows hs (FollowsRules.before _ ht hs.deeper hb (suits_pattern hf))
    | none =>
      have hf' : Table.patterns s'.kind = none := by rw [hs.kind hb, hf]
      rw [pattern_of_none ht hf, pattern_of_none ht hf']
      exact nested_follows hs ((followsBefore_refuse _).follows ht hs.deeper hb)

instance : Follows f (restPattern run) (restPattern run) := by unfold restPattern; infer_instance

instance : Follows f (annotatedType run) (annotatedType run) := by
  unfold annotatedType; infer_instance

instance (allowDefault : Bool) :
    Follows f (identifierPattern run allowDefault) (identifierPattern run allowDefault) := by
  unfold identifierPattern; infer_instance

instance : Follows f (tuplePattern run) (tuplePattern run) := by
  unfold tuplePattern; infer_instance

instance : Follows f (enumPattern run) (enumPattern run) := by unfold enumPattern; infer_instance

instance : Follows f (literalPattern run) (literalPattern run) := by
  unfold literalPattern; infer_instance

/-! ## Attributes -/

instance : Follows f (nextAttribute run) (nextAttribute run) := by
  unfold nextAttribute; infer_instance

instance : Follows f (attributeList run) (attributeList run) := by
  refine follows_of (followsBefore_look isAt_before fun _ => followsBefore_ite ?_ ?_)
    followsAt_of_takes
  · exact followsBefore (collect (nextAttribute run)) (collect (nextAttribute run))
  · exact followsBefore_look (fun hs hb => by rw [hs.current hb]) fun _ => followsBefore_refuse _

instance : Follows f (moreAttributes run) (moreAttributes run) := by
  have hp {setup : Setup} {s : State} (he : s.Ended) (hk : s.kind == .yieldWord) :
      (attributeList run setup s).Passed s.remaining := attributeList_passed he (beq_iff_eq.1 hk)
  have : Follows f (do if ← isAt .yieldWord then attributeList run else return [])
      (do if ← isAt .yieldWord then attributeList run else return []) :=
    follows_sign isAt_before (fun _ => hp) (fun _ => hp) (followsBefore _ _) (followsBefore _ _)
      fun ht hs _ _ => Follows.follows ht hs
  unfold moreAttributes
  infer_instance

/-- Whether a signature looks for attributes at the current token. -/
def State.signsAttributes (s : State) : Bool := s.kind == .yieldWord || s.kind == .comma

omit [∀ rule, Keeps (run rule)] [Passing run] [Taking run] [FollowsRules f run] in
theorem signatureAttributes_of_sign (hc : s.signsAttributes) :
    signatureAttributes run setup s = attributeList run setup s := by
  change (if s.signsAttributes then attributeList run else return [] : Parse _) setup s = _
  rw [if_pos hc]

omit [∀ rule, Keeps (run rule)] [Passing run] [Taking run] [FollowsRules f run] in
theorem signatureAttributes_of_no_sign (hc : s.signsAttributes = false) :
    signatureAttributes run setup s = .done [] s := by
  change (if s.signsAttributes then attributeList run else return [] : Parse _) setup s = _
  rw [hc]
  rfl

omit [∀ rule, Keeps (run rule)] [Passing run] [Taking run] [FollowsRules f run] in
/-- The list of attributes starts at the comma itself, where it is refused. -/
theorem signatureAttributes_comma (hk : s.kind = .comma) :
    ∃ error s₁, signatureAttributes run setup s = .stopped (.error error) s₁ := by
  obtain ⟨error, -, he⟩ := refuses (α := List NodeId)
    (errorAt .emptyAttributeList s.current.span [.yieldAttribute]) setup s
  refine ⟨error, s, ?_⟩
  rw [signatureAttributes_of_sign (Bool.or_eq_true_iff.2 (.inr (beq_iff_eq.2 hk))), ← he]
  simp only [attributeList, Bind.bind, Parse.bind, isAt, look, hk]
  rfl

variable (run) in
/-- A comma is taken for the start of attributes, where without it the signature has ended. -/
theorem signatureAttributes_loosely (ht : setup.table = .standard) (hs : Forked f s s') :
    (signatureAttributes run setup s).Follows f (signatureAttributes run setup s') ∨
      f.put.kind = .comma ∧ f.At s ∧ signatureAttributes run setup s = .done [] s ∧
        ∃ error s₁, signatureAttributes run setup s' = .stopped (.error error) s₁ := by
  have hlist : Follows f (attributeList run) (attributeList run) := inferInstance
  rcases hs.cases with ha | hb
  · obtain ⟨-, hput⟩ := hs.current_at ha
    cases hc : s.signsAttributes <;> cases hc' : s'.signsAttributes
    · rw [signatureAttributes_of_no_sign hc, signatureAttributes_of_no_sign hc']
      exact .inl (.done hs)
    · rcases Bool.or_eq_true_iff.1 hc' with hy | hcomma
      · refine .inl (hs.apart ha (.inr ?_))
        rw [signatureAttributes_of_sign hc']
        exact attributeList_passed hs.ended' (beq_iff_eq.1 hy)
      · have hk : s'.kind = .comma := beq_iff_eq.1 hcomma
        exact .inr ⟨(congrArg Token.kind hput).symm.trans hk, ha,
          signatureAttributes_of_no_sign hc, signatureAttributes_comma hk⟩
    · -- Where only the first looks for attributes, it wants one, but the new token is none.
      refine .inl (hs.apart ha (.inl ?_))
      rw [signatureAttributes_of_sign hc]
      refine ha.excused hs.ended ht fun hw => ?_
      have hm := (Takes.takes ht hs.ended hs.ended' hs.depth hw).1
      have hk : f.put.kind = .yieldWord := f.met.of_singleton hm
      rw [State.signsAttributes, State.kind, hput, hk] at hc'
      cases hc'
    · rw [signatureAttributes_of_sign hc, signatureAttributes_of_sign hc']
      exact .inl (hlist.follows ht hs)
  · refine .inl ((followsBefore_look (fun hs hb => ?_) fun _ => ?_).follows ht hs hb)
    · rw [hs.kind hb]
    · exact followsBefore _ _

omit [∀ rule, Keeps (run rule)] [Passing run] [Taking run] [FollowsRules f run] in
theorem signature_apply : signature run setup s =
    ((do return (← run (.pattern .tuple true), ← annotatedType run)) >>= fun head =>
      signatureAttributes run >>= fun attributes => pushFrom s.current.span.start
        (.functionSignature head.1 head.2 attributes)) setup s := by
  simp only [bind_assoc, pure_bind]
  rfl

theorem signature_loosely (ht : setup.table = .standard) (hs : Forked f s s') (hb : f.Before s) :
    (signature run setup s).Follows f (signature run setup s') ∨
      f.put.kind = .comma ∧ (∃ id s₁, signature run setup s = .done id s₁ ∧ f.At s₁) ∧
        ∃ error s₁, signature run setup s' = .stopped (.error error) s₁ := by
  rw [signature_apply, signature_apply, hs.current hb]
  generalize hhead : (do return (← run (.pattern .tuple true), ← annotatedType run)) = head
  have hf : Follows f head head := by
    rw [← hhead]
    infer_instance
  by_cases hx : ∃ a s₁ s₁' error s₂, head setup s = .done a s₁ ∧ head setup s' = .done a s₁' ∧
    f.put.kind = .comma ∧ f.At s₁ ∧ signatureAttributes run setup s₁ = .done [] s₁ ∧
      signatureAttributes run setup s₁' = .stopped (.error error) s₂
  · obtain ⟨a, s₁, s₁', error, s₂, h, h', hput, ha, hd, he⟩ := hx
    rw [bind_of_done h, bind_of_done h', bind_of_done hd]
    exact .inr ⟨hput, ⟨_, _, rfl, ha⟩, error, s₂, bind_of_stopped he⟩
  · refine .inl (bind_follows (hf.follows ht hs) fun {a s₁ s₁'} h h' hs₁ => ?_)
    rcases signatureAttributes_loosely run ht hs₁ with
      hsame | ⟨hput, ha, hd, error, s₂, he⟩
    · exact bind_follows hsame fun _ _ hs₂ => Follows.follows ht hs₂
    · exact absurd ⟨a, s₁, s₁', error, s₂, h, h', hput, ha, hd, he⟩ hx

/-! ## Declarations -/

/-- Where the attributes have led the parses apart, only a body is wanted, which starts with no
comma. -/
instance (start : Nat) : Follows f (letFunction run start) (letFunction run start) := by
  have hx (item : Expected) (hi : item ∈ [.token .openCurly, .token .assignment]) (token : Token)
      (hm : item.Met token) : token.kind = .assignment ∨ token.kind = .openCurly :=
    (hm.kind_of_pair hi).symm
  have hbody : Follows f (body run "expected function body" _) _ := body_follows hx
  refine follows_bind (fun _ => inferInstance) (fun _ => inferInstance) fun name =>
    follows_of ⟨fun {setup} ht s s' hs hb => ?_⟩ ⟨fun {setup} ht s s' hs ha => ?_⟩
  · rcases (inferInstance : FollowsRules f run).signature ht hs hb with
      hsame | ⟨hput, ⟨id, s₁, hd, ha⟩, error, s₂, he⟩
    · exact bind_follows hsame fun _ _ hs₁ => Follows.follows ht hs₁
    · rw [bind_of_done hd, bind_of_stopped he]
      have hended : s₁.Ended := State.Ended.grow (kept_of_done hd).toGrown hs.ended
      refine .apart ((keeps _ setup s₁).reaches (.inl (Nat.le_of_eq ha))) trivial
        (.inl (bind_excused (ha.excused hended ht fun hw => ?_)))
      rcases f.met.kind_of_pair (body_wants ht hended hw) with hk | hk
      · cases hk.symm.trans hput
      · cases hk.symm.trans hput
  · have hat : FollowsAt f (run (.form .signature)) (run (.form .signature)) := followsAt_of_takes
    exact bind_follows (hat.follows ht hs ha) fun _ _ hs₁ => Follows.follows ht hs₁

instance (start : Nat) : Follows f (letStruct run start) (letStruct run start) := by
  unfold letStruct; infer_instance

instance : Follows f externalModule externalModule := by unfold externalModule; infer_instance

instance : Follows f external external := by unfold external; infer_instance

instance : Takes (variant run) [.identifier] := by unfold variant; infer_instance

instance : Follows f (variant run) (variant run) := by unfold variant; infer_instance

instance (start : Nat) : Follows f (letEnum run start) (letEnum run start) := by
  have hvariants : Follows f (do
        let variants ← bracedItems (variant run)
        let _ ← expect .closeCurly
        return variants)
      (do
        let variants ← bracedItems (variant run)
        let _ ← expect .closeCurly
        return variants) :=
    follows_braced [.identifier] fun expected hm token hmet => by
      have hk : token.kind = .identifier := hmet.of_singleton hm
      simp [hk]
  have hopening : Follows f
      (expectOr .openCurly (unexpected [.token .openCurly] (some "enum declaration needs a body")))
      (expectOr .openCurly
        (unexpected [.token .openCurly] (some "enum declaration needs a body"))) :=
    follows_expectOr _ _ fun hm =>
      show Expected.Met (.token .openCurly) f.put from f.met.of_singleton hm
  unfold variant at hvariants
  unfold letEnum
  infer_instance

/-! ## Statement lists -/

variable (f run) in
/-- Where a statement list in colon form has ended at the place, the place is excused, or the new
token goes on with it. -/
theorem colonList_follows (start : Nat) : Follows f
    (do
      let statements ← bracedItems (run (.form .statement))
      pushFrom start (.transparentList .colon statements))
    (do
      let statements ← bracedItems (run (.form .statement))
      pushFrom start (.transparentList .colon statements)) := by
  rw [bracedItems_eq]
  refine follows_items [.statement] (fun expected hm token hmet => ?_)
    fun {items setup s s'} ht hs ha hg hg' => ?_
  · have hk : token.kind = .doWord := hmet.of_singleton hm
    simp [hk]
  · obtain ⟨hc, hc'⟩ := hs.current_at ha
    have hput := goesOn_iff.1 hg'
    have hmet := f.met
    rw [← hc'] at hmet
    by_cases hi : f.item = .statement
    · rw [hi] at hmet
      have hk : s'.kind = .doWord := hmet
      exact .inr (Taking.passed (.form .statement) ht hs.ended' (by rw [Starts, hk]; rfl))
    · refine .inl fun _ => ⟨ha, ?_, hi, fun hi => ?_, items, start, ?_⟩
      · rw [← hc]
        by_contra hne
        rw [not_or] at hne
        rw [goesOn_iff.2 ⟨hne.2, hne.1⟩] at hg
        cases hg
      · rw [hi] at hmet
        exact hput.2 hmet
      · simp [State.push, State.spanFrom]

instance : Follows f (statementList run) (statementList run) := by
  have := colonList_follows f run
  refine follows_of (followsBefore_look (fun hs hb => by rw [hs.current hb]) fun start => ?_)
    followsAt_of_takes
  exact followsBefore _ _

/-! ## Suffixes -/

instance (power : Power) (left : NodeId) :
    Follows f (suffixTurn run power left) (suffixTurn run power left) where
  follows {setup} ht s s' hs := by
    let Loose (s : State) : Prop := ∀ entry ∈ setup.table.suffix s.kind, ¬entry.1.tighter power
    have hloose (hl : Loose s) (hl' : Loose s') : (suffixTurn run power left setup s).Follows f
        (suffixTurn run power left setup s') := by
      rw [suffixTurn_loose run hl, suffixTurn_loose run hl']
      exact .done hs
    rcases hs.cases with ha | hb
    · by_cases hl : Loose s
      · by_cases hl' : Loose s'
        · exact hloose hl hl'
        · exact hs.apart ha (.inr (suffixTurn_passed ht hs.ended' left hl'))
      · have hp : (suffixTurn run power left setup s).Passed s.remaining :=
          suffixTurn_passed ht hs.ended left hl
        rw [show s.remaining = _ from ha] at hp
        exact hs.apart ha (.inl hp.excused)
    · by_cases hl : Loose s
      · exact hloose hl (by rwa [show Loose s' = Loose s by simp only [Loose, hs.kind hb]])
      · obtain ⟨⟨next, suffix⟩, hf, hn⟩ :
            ∃ entry ∈ setup.table.suffix s.kind, entry.1.tighter power := by simpa [Loose] using hl
        rw [ht] at hf
        rw [suffixTurn_of_tighter ht left hf hn, suffixTurn_of_tighter ht left (hs.kind hb ▸ hf) hn]
        exact bind_follows (FollowsRules.before _ ht hs hb hf) fun _ _ hs => .done hs

instance (left : NodeId) (power : Power) :
    Follows f (continuation run left power) (continuation run left power) := by
  rw [continuation_eq]
  exact follows_loop (fun _ => inferInstance) left

end

end Smaug.Parse
