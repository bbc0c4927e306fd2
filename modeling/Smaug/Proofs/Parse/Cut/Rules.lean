import Mathlib
import Smaug.Proofs.Parse.Cut.Basic

/-! # Rules on a piece of the input

What a rule has done within a piece it does again in the piece alone.  Where a construct may end or
go on, it goes on by a token that it passes: if the piece ends there, the construct has ended, and
it also ends at the end of the input.
-/

namespace Smaug

/-- The same rule, with the node to its left `base` nodes further on. -/
@[reducible] def Rule.shift (base : Nat) : Rule → Rule
  | .form construct => .form construct
  | .expression power => .expression power
  | .continuation left power => .continuation (left + base) power
  | .suffix operator left power => .suffix operator (left + base) power
  | .tuple owner => .tuple owner
  | .pattern kind allowDefault => .pattern kind allowDefault

namespace Parse

open Grammar

instance : Shift Rule := ⟨fun f => Rule.shift f.before.length⟩

section
variable {f : Frame} {n : Nat}

instance (left : NodeId) (name : Name) :
    Same (Shape.member (shift f left) (.single (shift f name)))
      (shift f (Shape.member left (.single name))) := ⟨rfl⟩

set_option synthInstance.maxSize 2048

instance (name : Name) :
    Same (Shape.identifier (.single (shift f name))) (shift f (Shape.identifier (.single name))) :=
  ⟨rfl⟩

theorem shift_kind (token : Token) : (shift f token).kind = token.kind := rfl

theorem shift_value (token : Token) : (shift f token).value = token.value := rfl

instance : Cuts f n primary primary := by
  refine CutsInside.cuts (cutsInside_look (fun hs hr => (hs.inside hr).1) fun token => ?_)
  simp only [shift_kind, shift_value]
  split
  · split
    · exact cutsInside_advance fun _ => inferInstance
    · exact Cuts.inside inferInstance
  · exact cutsInside_advance fun _ => inferInstance
  all_goals exact Cuts.inside inferInstance

instance : Cuts f n importStatement importStatement := by
  unfold importStatement; infer_instance

instance (left : NodeId) : Cuts f n (member (shift f left)) (member left) := by
  unfold member; infer_instance

instance : Cuts f n externalModule externalModule := by
  unfold externalModule; infer_instance

instance : Cuts f n external external := by
  unfold external; infer_instance

end

class CutsRules (f : Frame) (run run' : Rule → Parse NodeId) : Prop where
  cuts (n : Nat) (rule : Rule) : Cuts f n (run (shift f rule)) (run' rule)

section
variable {f : Frame} {n : Nat} {run run' : Rule → Parse NodeId} [∀ rule, Keeps (run rule)]
  [Passing run] [CutsRules f run run']
set_option synthInstance.maxSize 2048

instance {rule rule' : Rule} [h : Same rule (shift f rule')] :
    Cuts f n (run rule) (run' rule') := by
  rw [h.eq]
  exact CutsRules.cuts n rule'

instance : Cuts f n (value run) (value run') :=
  inferInstanceAs (Cuts f n (run _) (run' _))

instance : Cuts f n (typeExpression run) (typeExpression run') :=
  inferInstanceAs (Cuts f n (run _) (run' _))

instance : Cuts f n (operand run) (operand run') := by
  refine CutsInside.cuts (cutsInside_kind fun kind => cutsInside_given fun table => Cuts.inside ?_)
  cases table.operand kind <;> infer_instance

instance (power : Power) : Cuts f n (expression run power) (expression run' power) := by
  unfold expression; infer_instance

instance (left : NodeId) (power : Power) :
    Cuts f n (continuation run (shift f left) power) (continuation run' left power) := by
  refine cuts_loop (fun left => ?_) (fun left => ?_) left
  · refine keeps_bind _ fun table => keeps_bind _ fun kind => ?_
    split <;> infer_instance
  · refine CutsInside.cuts_of_end ?_ fun {setup setup' s c s' turn} ht hsetup hs hc hr hd hn => ?_
    · refine cutsInside_given fun table => cutsInside_kind fun kind => Cuts.inside ?_
      split
      · split <;> infer_instance
      · infer_instance
    · -- The input ends here, and another suffix would pass a token.
      have hnone : setup'.table.suffix c.kind = none := by
        rw [← hsetup.table, ht, hc]
        rfl
      simp only [Bind.bind, Parse.bind, given, look, hnone]
      simp only [bind_done, look_done, given_done, ht] at hd
      obtain ⟨_, _, ⟨rfl, rfl⟩, _, s, ⟨rfl, rfl⟩, hd⟩ := hd
      cases hsuffix : Table.standard.suffix s.kind with
      | none =>
        simp only [hsuffix, pure_done] at hd
        obtain ⟨rfl, rfl⟩ := hd
        exact .done rfl hs
      | some entry =>
        obtain ⟨next, suffix⟩ := entry
        simp only [hsuffix] at hd
        split at hd
        · obtain ⟨id, s₁, hd, hp⟩ := bind_done.1 hd
          obtain ⟨-, rfl⟩ := pure_done.1 hp
          have hf : Fits s (.suffix suffix (shift f left) next) := hsuffix
          have := Passing.passes ht hf rfl hs.ended hd
          omega
        · obtain ⟨rfl, rfl⟩ := pure_done.1 hd
          exact .done rfl hs

instance : Cuts f n (unary run) (unary run') := by unfold unary; infer_instance

instance (left : NodeId) (power : Power) :
    Cuts f n (binary run (shift f left) power) (binary run' left power) := by
  refine CutsInside.cuts (cutsInside_kind fun kind => Cuts.inside ?_)
  split <;> infer_instance

instance (left : NodeId) : Cuts f n (call run (shift f left)) (call run' left) := by
  unfold call; infer_instance

instance (left : NodeId) : Cuts f n (index run (shift f left)) (index run' left) := by
  unfold index; infer_instance

instance : Cuts f n (grouping run) (grouping run') := by unfold grouping; infer_instance

instance (construct : String) : Cuts f n (tuple run construct) (tuple run' construct) := by
  unfold tuple; infer_instance

instance : Cuts f n (array run) (array run') := by unfold array; infer_instance

instance (construct : String) (opening opening' : Span) :
    Cuts f n (bracedStatements run construct opening)
      (bracedStatements run' construct opening') := by
  unfold bracedStatements; infer_instance

instance : Cuts f n (block run) (block run') := by unfold block; infer_instance

instance (allowDefault : Bool) :
    Cuts f n (pattern run allowDefault) (pattern run' allowDefault) := by
  refine CutsInside.cuts (cutsInside_nested (cutsInside_given fun table =>
    cutsInside_kind fun kind => Cuts.inside ?_))
  cases table.pattern kind <;> infer_instance

instance : Cuts f n (restPattern run) (restPattern run') := by unfold restPattern; infer_instance

instance : Cuts f n (annotatedType run) (annotatedType run') := by
  unfold annotatedType; infer_instance

instance (allowDefault : Bool) :
    Cuts f n (identifierPattern run allowDefault) (identifierPattern run' allowDefault) := by
  unfold identifierPattern; infer_instance

instance : Cuts f n (tuplePattern run) (tuplePattern run') := by
  unfold tuplePattern; infer_instance

instance : Cuts f n (enumPattern run) (enumPattern run') := by unfold enumPattern; infer_instance

instance : Cuts f n (literalPattern run) (literalPattern run') := by
  unfold literalPattern; infer_instance

instance : Cuts f n (attributeList run) (attributeList run') := by
  refine CutsInside.cuts (cutsInside_isAt fun b => ?_)
  exact Cuts.inside inferInstance

instance : Cuts f n (signatureAttributes run) (signatureAttributes run') :=
  cuts_ite (fun hs hr => by rw [hs.kind hr]) (fun hc => by rw [hc]; rfl)
    (fun ht he _ hd => passes (attributeList run) ht he hd) (Cuts.inside inferInstance)
    inferInstance

instance : Cuts f n (moreAttributes run) (moreAttributes run') := by
  have : Cuts f n (isAt .yieldWord >>= fun b => if b then attributeList run else pure [])
      (isAt .yieldWord >>= fun b => if b then attributeList run' else pure []) :=
    cuts_ite isAt_framed (isAt_end (by decide))
      (fun ht he _ hd => passes (attributeList run) ht he hd) (Cuts.inside inferInstance)
      inferInstance
  unfold moreAttributes
  infer_instance

instance : Cuts f n (signature run) (signature run') := by unfold signature; infer_instance

instance : Cuts f n (statement run) (statement run') := by
  refine CutsInside.cuts (cutsInside_given fun table => cutsInside_kind fun kind => Cuts.inside ?_)
  cases table.statement kind <;> infer_instance

instance : Cuts f n (statementOrBlock run) (statementOrBlock run') := by
  unfold statementOrBlock; infer_instance

instance : Cuts f n (elseBranch run) (elseBranch run') := by unfold elseBranch; infer_instance

instance {start start' : Nat} [Same start (start' + f.offset)] :
    Cuts f n (letVariable run start) (letVariable run' start') := by
  unfold letVariable; infer_instance

instance : Cuts f n (doStatement run) (doStatement run') := by
  unfold doStatement; infer_instance

instance : Cuts f n (returnStatement run) (returnStatement run') := by
  unfold returnStatement; infer_instance

instance : Passes (statementList run) := by unfold statementList; infer_instance

instance : Cuts f n (statementList run) (statementList run') := by
  unfold statementList; infer_instance

instance : Cuts f n (ifStatement run) (ifStatement run') := by
  unfold ifStatement; infer_instance

instance (note : String) (expected : List Expected) :
    Cuts f n (body run note expected) (body run' note expected) := by
  refine CutsInside.cuts (cutsInside_kind fun kind => Cuts.inside ?_)
  split <;> infer_instance

instance : Cuts f n (casePattern run) (casePattern run') := by unfold casePattern; infer_instance

instance : Cuts f n (matchCase run) (matchCase run') := by unfold matchCase; infer_instance

instance : Cuts f n (matchStatement run) (matchStatement run') := by
  unfold matchStatement; infer_instance

instance {start start' : Nat} [Same start (start' + f.offset)] :
    Cuts f n (letFunction run start) (letFunction run' start') := by
  unfold letFunction; infer_instance

instance {start start' : Nat} [Same start (start' + f.offset)] :
    Cuts f n (letStruct run start) (letStruct run' start') := by
  unfold letStruct; infer_instance

instance {start start' : Nat} [Same start (start' + f.offset)] :
    Cuts f n (letEnum run start) (letEnum run' start') := by
  unfold letEnum; infer_instance

end

end Parse
end Smaug
