import Mathlib
import Smaug.Proofs.Parse.Depth.Basic

/-! # Rules with more room

With more room for nesting a rule does what it has done with less, unless it gave up there.  Only
`each` could do otherwise: it takes back the pattern in the head of a range, and the error that was
met there with it.
-/

namespace Smaug.Parse

section
variable {setup setup' : Setup} [SameGrammar setup setup']

instance : Refines setup setup' primary primary := by
  refine refines_bind inferInstance fun token => ?_
  generalize token.kind = kind
  split
  · split <;> infer_instance
  all_goals infer_instance

instance : Refines setup setup' importStatement importStatement := by
  unfold importStatement; infer_instance

instance (left : NodeId) : Refines setup setup' (member left) (member left) := by
  unfold member; infer_instance

instance : Refines setup setup' externalModule externalModule := by
  unfold externalModule; infer_instance

instance : Refines setup setup' external external := by unfold external; infer_instance

end

section
variable {setup setup' : Setup} [SameGrammar setup setup'] {run run' : Rule → Parse NodeId}
  [∀ rule, Refines setup setup' (run rule) (run' rule)]
set_option synthInstance.maxSize 512

instance : Refines setup setup' (value run) (value run') :=
  inferInstanceAs (Refines setup setup' (run _) (run' _))

instance : Refines setup setup' (typeExpression run) (typeExpression run') :=
  inferInstanceAs (Refines setup setup' (run _) (run' _))

instance : Refines setup setup' (operand run) (operand run') := by
  refine refines_bind inferInstance fun kind => refines_bind inferInstance fun table => ?_
  split <;> infer_instance

instance (left : NodeId) (power : Power) :
    Refines setup setup' (continuation run left power) (continuation run' left power) := by
  refine refines_loop (fun left => ?_) left
  refine refines_bind inferInstance fun table => refines_bind inferInstance fun kind => ?_
  split <;> infer_instance

instance : Refines setup setup' (unary run) (unary run') := by unfold unary; infer_instance

instance (left : NodeId) (power : Power) :
    Refines setup setup' (binary run left power) (binary run' left power) := by
  refine refines_bind inferInstance fun kind => ?_
  split <;> infer_instance

instance (left : NodeId) : Refines setup setup' (call run left) (call run' left) := by
  unfold call; infer_instance

instance (left : NodeId) : Refines setup setup' (index run left) (index run' left) := by
  unfold index; infer_instance

instance : Refines setup setup' (grouping run) (grouping run') := by
  unfold grouping; infer_instance

instance (construct : String) :
    Refines setup setup' (tuple run construct) (tuple run' construct) := by
  unfold tuple; infer_instance

instance : Refines setup setup' (array run) (array run') := by unfold array; infer_instance

instance (construct : String) (opening : Span) :
    Refines setup setup' (bracedStatements run construct opening)
      (bracedStatements run' construct opening) := by
  unfold bracedStatements; infer_instance

instance : Refines setup setup' (block run) (block run') := by unfold block; infer_instance

instance : Refines setup setup' (restPattern run) (restPattern run') := by
  unfold restPattern; infer_instance

instance (allowDefault : Bool) :
    Refines setup setup' (namedPattern run allowDefault) (namedPattern run' allowDefault) := by
  unfold namedPattern; infer_instance

instance : Refines setup setup' (annotatedType run) (annotatedType run') := by
  unfold annotatedType; infer_instance

instance (allowDefault : Bool) :
    Refines setup setup' (identifierPattern run allowDefault)
      (identifierPattern run' allowDefault) := by
  unfold identifierPattern; infer_instance

instance : Refines setup setup' (tuplePattern run) (tuplePattern run') := by
  unfold tuplePattern; infer_instance

instance : Refines setup setup' (enumPattern run) (enumPattern run') := by
  unfold enumPattern; infer_instance

instance : Refines setup setup' (literalPattern run) (literalPattern run') := by
  unfold literalPattern; infer_instance

instance : Refines setup setup' (attributeList run) (attributeList run') := by
  unfold attributeList; infer_instance

instance : Refines setup setup' (signatureAttributes run) (signatureAttributes run') := by
  have : Refines setup setup' (look fun s => s.kind == .yieldWord || s.kind == .comma)
      (look fun s => s.kind == .yieldWord || s.kind == .comma) := refines_look fun _ _ => rfl
  unfold signatureAttributes; infer_instance

instance : Refines setup setup' (signature run) (signature run') := by
  unfold signature; infer_instance

instance : Refines setup setup' (statement run) (statement run') := by
  refine refines_bind inferInstance fun table => refines_bind inferInstance fun kind => ?_
  split <;> infer_instance

instance : Refines setup setup' (statementOrBlock run) (statementOrBlock run') := by
  unfold statementOrBlock; infer_instance

instance : Refines setup setup' (elseBranch run) (elseBranch run') := by
  unfold elseBranch; infer_instance

instance (start : Nat) : Refines setup setup' (letVariable run start) (letVariable run' start) := by
  unfold letVariable; infer_instance

instance : Refines setup setup' (doStatement run) (doStatement run') := by
  unfold doStatement; infer_instance

instance : Refines setup setup' (returnStatement run) (returnStatement run') := by
  unfold returnStatement; infer_instance

instance : Refines setup setup' (statementList run) (statementList run') := by
  unfold statementList; infer_instance

instance : Refines setup setup' (moreAttributes run) (moreAttributes run') := by
  unfold moreAttributes; infer_instance

instance : Refines setup setup' (yieldStatement run) (yieldStatement run') := by
  have (table : Table) : Refines setup setup' (look (continuesAsAttributes table))
      (look (continuesAsAttributes table)) := refines_look fun _ _ => rfl
  unfold yieldStatement; infer_instance

instance : Refines setup setup' (ifStatement run) (ifStatement run') := by
  unfold ifStatement; infer_instance

instance (note : String) (expected : List Expected) :
    Refines setup setup' (body run note expected) (body run' note expected) := by
  refine refines_bind inferInstance fun kind => ?_
  split <;> infer_instance

instance : Refines setup setup' (casePattern run) (casePattern run') := by
  unfold casePattern; infer_instance

instance : Refines setup setup' (matchCase run) (matchCase run') := by
  unfold matchCase; infer_instance

instance : Refines setup setup' (matchStatement run) (matchStatement run') := by
  unfold matchStatement; infer_instance

instance (start : Nat) : Refines setup setup' (letFunction run start) (letFunction run' start) := by
  unfold letFunction; infer_instance

instance (start : Nat) : Refines setup setup' (letStruct run start) (letStruct run' start) := by
  unfold letStruct; infer_instance

instance (start : Nat) : Refines setup setup' (letEnum run start) (letEnum run' start) := by
  unfold letEnum; infer_instance

instance : Refines setup setup' (letStatement run) (letStatement run') := by
  refine refines_bind inferInstance fun token => refines_bind inferInstance fun kind => ?_
  split <;> infer_instance

section
variable [∀ rule, Keeps (run' rule)]

instance (power : Power) :
    Refines setup setup' (expression run power) (expression run' power) := by
  unfold expression; infer_instance

instance (allowDefault : Bool) :
    Refines setup setup' (pattern run allowDefault) (pattern run' allowDefault) := by
  unfold pattern
  refine refines_nested ?_ ?_
  · refine keeps_bind _ fun table => keeps_bind _ fun kind => ?_
    split <;> infer_instance
  · refine refines_bind inferInstance fun table => refines_bind inferInstance fun kind => ?_
    split <;> infer_instance

end

/-! ## The head of a range -/

/-- Where the pattern behind a parenthesis gives up, so does the pattern it opens. -/
def Firm (setup : Setup) (run : Rule → Parse NodeId) : Prop :=
  ∀ {s : State}, s.kind = .openParen → (run (.pattern .any false) setup s.advance).GivesUp →
    (run (.pattern .any false) setup s).GivesUp

section
variable [∀ rule, Keeps (run rule)] [∀ rule, Keeps (run' rule)]

omit [SameGrammar setup setup'] in
/-- Only a limit met in the pattern makes the head of a range differ. -/
theorem rangeHead_refines {s s' : State} (hs : MoreRoom setup setup' s s')
    (h : ¬(s.kind = .openParen ∧ (run (.pattern .any false) setup s.advance).GivesUp)) :
    (rangeHead run setup s).Refines setup setup' (rangeHead run' setup' s') := by
  have hp := refines (run (.pattern .any false)) (run' (.pattern .any false)) hs.advance
  have hk : s'.kind = s.kind := by rw [State.kind, State.kind, hs.current]
  rw [rangeHead_apply, rangeHead_apply, hk]
  by_cases ho : s.kind = .openParen
  · rw [if_pos ho, if_pos ho]
    generalize run (.pattern .any false) setup s.advance = outcome,
      run' (.pattern .any false) setup' s'.advance = outcome' at hp h
    cases hp with
    | givesUp hg => exact absurd ⟨ho, hg⟩ h
    | @done pattern s₁ s₁' h₁ =>
      have hk : s₁'.kind = s₁.kind := by rw [State.kind, State.kind, h₁.current]
      simp only [hk, hs.current]
      split
      · exact .done h₁.advance
      · exact .done hs
    | error => exact .done hs
  · rw [if_neg ho, if_neg ho]
    exact .done hs

theorem eachStatement_refines (hf : Firm setup run) :
    Refines setup setup' (eachStatement run) (eachStatement run') := by
  refine refines_bind inferInstance fun token => ⟨fun {s s'} hs => ?_⟩
  by_cases h : s.kind = .openParen ∧ (run (.pattern .any false) setup s.advance).GivesUp
  · obtain ⟨ho, hg⟩ := h
    have hagain := hf ho hg
    have hh : rangeHead run setup s = _ := rangeHead_apply setup s
    rw [if_pos ho] at hh
    generalize run (.pattern .any false) setup s.advance = outcome at hg hh
    refine .givesUp ?_
    match outcome, hg with
    | .stopped (.error error) s₁, _ =>
      -- The parse goes back and reads the same pattern again, one level deeper.
      have hv : (letVariable run s.current.span.start setup s).GivesUp := bind_givesUp hagain
      change (Parse.bind (rangeHead run) _ setup s).GivesUp
      unfold Parse.bind
      rw [hh]
      change ((letVariable run s.current.span.start >>= _) setup s).GivesUp
      exact bind_givesUp hv
    | .stopped (.missingNode _) _, _ => exact bind_givesUp (by rw [hh]; trivial)
    | .stopped .exhausted _, _ => exact bind_givesUp (by rw [hh]; trivial)
  · refine bind_refines (rangeHead_refines hs h) fun head => ?_
    split <;> infer_instance

end

/-! ## Every rule -/

theorem ruleBody_refines [∀ rule, Keeps (run rule)] [∀ rule, Keeps (run' rule)]
    (hf : Firm setup run) (rule : Rule) :
    Refines setup setup' (rule.body run) (rule.body run') := by
  have : Refines setup setup' (eachStatement run) (eachStatement run') := eachStatement_refines hf
  cases rule with
  | form form => cases form <;> unfold Rule.body Form.body <;> infer_instance
  | suffix suffix left power => cases suffix <;> unfold Rule.body Suffix.body <;> infer_instance
  | pattern form => cases form <;> unfold Rule.body PatternForm.body <;> infer_instance
  | _ => unfold Rule.body; infer_instance

end

end Smaug.Parse
