import Smaug.Proofs.Tree.Power

/-! # How constructs end

Some constructs end with a part of theirs, with no sign of their own behind it.  What comes after
such a construct comes after that part too, and after the last part of that.
-/

namespace Smaug

namespace Shape

/-- The part that a construct ends with, where it does not end with a sign of its own. -/
def last? : Shape → Option NodeId
  | unary _ operand => some operand
  | binary _ _ rhs => some rhs
  | doStatement value | yieldStatement value | returnStatement value | retryCase value => some value
  | ifStatement _ thenBranch elseBranch => some (elseBranch.getD thenBranch)
  | ifLet _ thenBranch elseBranch => some (elseBranch.getD thenBranch)
  | each _ body | eachRange _ _ body => some body
  | batchAttributes _ body => some body
  | letVariable _ value => some value
  | letFunction _ _ body => some body.node
  | _ => none

/-- Whether a construct is a statement list after a colon, which reaches as far as the list around
it. -/
def isColonList : Shape → Bool
  | transparentList .colon _ => true
  | _ => false

def isLoose (shape : Shape) : Bool :=
  shape.binaryOp?.any fun op => !op.tier.tighter .compare

end Shape

/-- The operand of a `yield` that could have been read as a type. -/
def YieldsType (nodes : Array Node) (shape : Shape) : Prop :=
  ∃ value node, shape = .yieldStatement value ∧ nodes[value]? = some node ∧
    node.shape.isLoose = false

/-- A construct is of some sort, or it ends with one that is. -/
inductive EndsIn (nodes : Array Node) (sort : Shape → Prop) : NodeId → Prop
  | self (h : nodes[i]? = some node) (hs : sort node.shape) : EndsIn nodes sort i
  | last (h : nodes[i]? = some node) (hl : node.shape.last? = some last)
      (hs : EndsIn nodes sort last) : EndsIn nodes sort i

theorem EndsIn.of_getElem? {nodes : Array Node} {sort : Shape → Prop} {id : NodeId}
    (h : EndsIn nodes sort id) (node : Node) (hn : nodes[id]? = some node) :
    sort node.shape ∨ ∃ last, node.shape.last? = some last ∧ EndsIn nodes sort last := by
  cases h with
  | self h hs =>
    obtain rfl := Option.some.inj (h.symm.trans hn)
    exact .inl hs
  | last h hl hs =>
    obtain rfl := Option.some.inj (h.symm.trans hn)
    exact .inr ⟨_, hl, hs⟩

theorem EndsIn.mono {nodes nodes' : Array Node} {sort sort' : Shape → Prop}
    (hn : ∀ {id : NodeId} {node : Node}, nodes[id]? = some node → nodes'[id]? = some node)
    (hs : ∀ shape, sort shape → sort' shape) {id : NodeId} (h : EndsIn nodes sort id) :
    EndsIn nodes' sort' id := by
  induction h with
  | self h hp => exact .self (hn h) (hs _ hp)
  | last h hl _ ih => exact .last (hn h) hl ih

theorem YieldsType.mono {nodes nodes' : Array Node}
    (hn : ∀ {id : NodeId} {node : Node}, nodes[id]? = some node → nodes'[id]? = some node)
    {shape : Shape} (h : YieldsType nodes shape) : YieldsType nodes' shape := by
  obtain ⟨value, node, hs, hv, hl⟩ := h
  exact ⟨value, node, hs, hn hv, hl⟩

end Smaug
