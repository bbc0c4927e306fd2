import Smaug.Proofs.Parse.Reached

/-! # Spans of what stands at the top level

A header and a statement reach from their first token to the last one passed for them.
-/

namespace Smaug

def Form.isStatement : Form → Bool
  | statement | importStatement | doStatement | returnStatement | yieldStatement | ifStatement
  | eachStatement | matchStatement | letStatement => true
  | _ => false

namespace Parse

open Grammar

def SpansBetween (s : State) (id : NodeId) (s' : State) : Prop :=
  ∃ node, s'.nodes[id]? = some node ∧ node.span = s'.spanFrom s.current.span.start

theorem spansBetween_push (s s' : State) (shape : Shape) :
    SpansBetween s s'.nodes.size (s'.push ⟨shape, s'.spanFrom s.current.span.start⟩) :=
  ⟨_, Array.getElem?_push_size, rfl⟩

def SpansStatement : Meaning := fun rule s id s' =>
  ∀ form, rule = .form form → form.isStatement → SpansBetween s id s'

theorem isStatement_of_statements {kind : Token.Kind} {form : Form}
    (h : Table.statements kind = some form) : form.isStatement := by
  unfold Table.statements at h
  split at h <;> cases h <;> rfl

theorem spans_of_production {maxDepth : Nat} {rule : Rule} {s s' : State} {id : NodeId}
    (h : Production SpansStatement maxDepth rule s id s') : SpansStatement rule s id s' := by
  rintro form rfl hf
  cases h with
  | statement hs hr => exact hr _ rfl (isStatement_of_statements hs)
  | letVariable _ hv =>
    cases hv
    exact spansBetween_push _ _ _
  | importStatement | doStatement | retryCase | returnStatement | yieldStatement
  | batchAttributes | ifStatement | ifLet | eachRange | each | matchStatement | letFunction
  | letStruct | letEnum => exact spansBetween_push _ _ _
  | _ => cases hf

theorem statement_spans {setup : Setup} (ht : setup.table = .standard) {s s' : State} {id : NodeId}
    (h : (Rule.form .statement).parse setup s = .done id s') : SpansBetween s id s' := by
  have hs : SpansStatement (.form .statement) s id s' := parse_done ht spans_of_production trivial h
  exact hs _ rfl rfl

theorem HeaderRead.spans {s s' : State} {id : NodeId} (h : HeaderRead s (.some id) s') :
    SpansBetween s id s' := by
  cases h
  exact spansBetween_push _ _ _

end Parse
end Smaug
