import Smaug.Grammar.Power
import Smaug.Proofs.Tree.PostOrder

/-! # How tightly the nodes of an arena hold their operands

Every construct has a power: an operator the one of its tier, and everything else, being closed by
its own signs, the highest there is.  A type is no comparison unless something closes that in.  An
arena is ranked when no construct has an operand of less power than it takes.
-/

namespace Smaug

def BinaryOp.tier : BinaryOp → Power
  | logicalAnd => .logicalAnd
  | logicalOr => .logicalOr
  | less | lessEquals | equals | notEquals | greaterEquals | greater | colon | within => .compare
  | range => .range
  | append => .append
  | add | subtract => .add
  | multiply | divide | remainder => .multiply

theorem BinaryOp.tier_lt_unary (op : BinaryOp) : op.tier.rank < Power.unary.rank := by
  cases op <;> decide

theorem Power.rank_le_primary (power : Power) : power.rank ≤ Power.primary.rank := by
  cases power <;> decide

namespace Shape

def power : Shape → Power
  | binary op _ _ => op.tier
  | unary _ _ => .unary
  | _ => .primary

def types : Shape → List NodeId
  | identifierPattern _ type _ | functionSignature _ type _ => type.toList
  | yieldAttribute type => [type]
  | _ => []

/-- The operands that a construct takes without closing them in, each with the least power that it
may have, by rank. -/
def operands : Shape → List (Nat × NodeId)
  | binary op lhs rhs => [(op.tier.rank, lhs), (op.tier.rank + 1, rhs)]
  | unary _ operand => [(Power.unary.rank, operand)]
  | call callee _ => [(Power.suffix.rank, callee)]
  | index target _ => [(Power.suffix.rank, target)]
  | member object _ => [(Power.member.rank, object)]
  | shape => shape.types.map (Power.compare.rank + 1, ·)

def binaryOp? : Shape → Option BinaryOp
  | binary op _ _ => some op
  | _ => none

def isOperation : Shape → Bool
  | binary .. | unary .. => true
  | _ => false

theorem power_of_binaryOp {shape : Shape} {op : BinaryOp} (h : shape.binaryOp? = some op) :
    shape.power = op.tier := by
  unfold binaryOp? at h
  split at h <;> cases h
  rfl

theorem binaryOp_eq_none {shape : Shape} (h : Power.unary.rank ≤ shape.power.rank) :
    shape.binaryOp? = none := by
  cases ho : shape.binaryOp? with
  | none => rfl
  | some op =>
    have := op.tier_lt_unary
    rw [power_of_binaryOp ho] at h
    omega

theorem isOperation_eq_false {shape : Shape} (h : Power.unary.rank < shape.power.rank) :
    shape.isOperation = false := by
  unfold isOperation
  split
  · rename_i op _ _
    have := op.tier_lt_unary
    simp only [power] at h
    omega
  · simp [power] at h
  · rfl

end Shape

/-- A node of an arena has at least some power, by rank. -/
def HasPower (nodes : Array Node) (id : NodeId) (rank : Nat) : Prop :=
  ∃ node, nodes[id]? = some node ∧ rank ≤ node.shape.power.rank

def Ranked (nodes : Array Node) : Prop :=
  ∀ (id : NodeId) (node : Node), nodes[id]? = some node →
    ∀ rank operand, (rank, operand) ∈ node.shape.operands → HasPower nodes operand rank

theorem Ranked.empty : Ranked #[] := by simp [Ranked]

theorem HasPower.push {nodes : Array Node} {id : NodeId} {rank : Nat} (node : Node)
    (h : HasPower nodes id rank) : HasPower (nodes.push node) id rank := by
  obtain ⟨found, hn, hr⟩ := h
  exact ⟨found, getElem?_push_of_some hn, hr⟩

/-- A new node leaves an arena ranked if its own operands have the power they need. -/
theorem Ranked.push {nodes : Array Node} (node : Node) (h : Ranked nodes)
    (hn : ∀ rank operand, (rank, operand) ∈ node.shape.operands → HasPower nodes operand rank) :
    Ranked (nodes.push node) := by
  intro id found hid rank operand ho
  rw [Array.getElem?_push] at hid
  split at hid
  · cases hid
    exact (hn rank operand ho).push node
  · exact (h id found hid rank operand ho).push node

/-- The operators of a tree group by their tiers.  The left operand of an operator binds at least as
tightly, the right one more tightly; a sign before an operand binds more tightly than any operator
between two, and what is called, accessed or asked for a member is no operation at all. -/
structure Tree.Grouped (tree : Tree) : Prop where
  left (h : tree.get? i = some ⟨.binary op lhs rhs, span⟩) : ∃ node, tree.get? lhs = some node ∧
    ∀ inner, node.shape.binaryOp? = some inner → op.tier.rank ≤ inner.tier.rank
  right (h : tree.get? i = some ⟨.binary op lhs rhs, span⟩) : ∃ node, tree.get? rhs = some node ∧
    ∀ inner, node.shape.binaryOp? = some inner → op.tier.rank < inner.tier.rank
  unary (h : tree.get? i = some ⟨.unary sign operand, span⟩) :
    ∃ node, tree.get? operand = some node ∧ node.shape.binaryOp? = none
  call (h : tree.get? i = some ⟨.call callee arguments, span⟩) :
    ∃ node, tree.get? callee = some node ∧ node.shape.isOperation = false
  index (h : tree.get? i = some ⟨.index target indices, span⟩) :
    ∃ node, tree.get? target = some node ∧ node.shape.isOperation = false
  member (h : tree.get? i = some ⟨.member object name, span⟩) :
    ∃ node, tree.get? object = some node ∧ node.shape.isOperation = false

theorem HasPower.closed {nodes : Array Node} {id : NodeId} {rank : Nat}
    (hr : Power.unary.rank < rank) (h : HasPower nodes id rank) :
    ∃ node, nodes[id]? = some node ∧ node.shape.isOperation = false := by
  obtain ⟨node, hn, hp⟩ := h
  exact ⟨node, hn, Shape.isOperation_eq_false (Nat.lt_of_lt_of_le hr hp)⟩

theorem Ranked.grouped {tree : Tree} (h : Ranked tree.nodes) : tree.Grouped where
  left hid := by
    obtain ⟨node, hn, hp⟩ := h _ _ hid _ _ (.head _)
    refine ⟨node, hn, fun inner hi => ?_⟩
    rwa [Shape.power_of_binaryOp hi] at hp
  right hid := by
    obtain ⟨node, hn, hp⟩ := h _ _ hid _ _ (.tail _ (.head _))
    refine ⟨node, hn, fun inner hi => ?_⟩
    rwa [Shape.power_of_binaryOp hi] at hp
  unary hid := by
    obtain ⟨node, hn, hp⟩ := h _ _ hid _ _ (.head _)
    exact ⟨node, hn, Shape.binaryOp_eq_none hp⟩
  call hid := (h _ _ hid _ _ (.head _)).closed (by decide)
  index hid := (h _ _ hid _ _ (.head _)).closed (by decide)
  member hid := (h _ _ hid _ _ (.head _)).closed (by decide)

end Smaug
