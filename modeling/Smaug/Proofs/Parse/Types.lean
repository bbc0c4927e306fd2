import Mathlib
import Smaug.Proofs.Parse.Grouping
import Smaug.Proofs.Parse.Sorts
import Smaug.Proofs.Tree.Nesting

/-! # Where types end

A type is read as an expression that ends before comparisons, so that `:`, `in` and `=` stay
outside.  That holds for the type itself and for all that it takes without closing it in.  A
statement may stand for any operand though, and the expressions in a statement are read from the
loosest power on: below a statement in a type there are comparisons again, as there are between
brackets.
-/

namespace Smaug

/-- Whether comparisons may stand below a construct in a type again: it has brackets of its own or
is a statement. -/
def Shape.closesType (shape : Shape) : Bool := shape.isBracketed || shape.isStatement

/-- A node is reached from the top one without passing through one that `stops`. -/
inductive Exposed (nodes : Array Node) (stops : Shape → Bool) (top : NodeId) : NodeId → Prop
  | top : Exposed nodes stops top top
  | child (h : Exposed nodes stops top parent) (hn : nodes[parent]? = some node)
      (hs : stops node.shape = false) (hc : child ∈ node.children) :
      Exposed nodes stops top child

/-- In the types of a tree no operator is a comparison or binds even more loosely, but below nodes
that `stops`. -/
def Tree.TypesEnd (tree : Tree) (stops : Shape → Bool) : Prop :=
  ∀ (id : NodeId) (node : Node), tree.get? id = some node → ∀ type ∈ node.shape.types,
    ∀ i, Exposed tree.nodes stops type i → ∀ op lhs rhs span,
      tree.get? i = some ⟨.binary op lhs rhs, span⟩ →
        op.tier ∉ [Power.compare, .logicalOr, .logicalAnd]

/-- What a type is above the first brackets and statements: an expression that binds more tightly
than comparisons. -/
def IsTight (nodes : Array Node) (stops : Shape → Bool) (id : NodeId) : Prop :=
  ∃ node, nodes[id]? = some node ∧
    (stops node.shape ∨ node.shape.isExpression ∧ Power.compare.rank < node.shape.power.rank)

theorem isTight_of_operand {nodes : Array Node} {id : NodeId} {rank : Nat}
    (hr : HasRole nodes .operand id) (hp : HasPower nodes id rank)
    (hrank : Power.compare.rank < rank) : IsTight nodes Shape.closesType id := by
  obtain ⟨node, hn, ha⟩ := hr
  obtain ⟨found, hf, hle⟩ := hp
  obtain rfl : node = found := Option.some.inj (hn.symm.trans hf)
  refine ⟨node, hn, ?_⟩
  have ha : (node.shape.isExpression || node.shape.isStatement) = true := ha
  rcases Bool.or_eq_true_iff.1 ha with he | hs
  · exact .inr ⟨he, Nat.lt_of_lt_of_le hrank hle⟩
  · exact .inl (by simp [Shape.closesType, hs])

theorem isTight_of_bracketed {nodes : Array Node} {role : Role} {id : NodeId}
    (hr : HasRole nodes role id) (hb : ∀ shape, role.admits shape → shape.isBracketed) :
    IsTight nodes Shape.closesType id := by
  obtain ⟨node, hn, ha⟩ := hr
  exact ⟨node, hn, .inl (by simp [Shape.closesType, hb _ ha])⟩

theorem Sorted.part {nodes : Array Node} (h : Sorted nodes) {id child : NodeId} {node : Node}
    (hn : nodes[id]? = some node) {role : Role} (hp : .node role child ∈ node.shape.parts) :
    HasRole nodes role child :=
  h.reference id node hn role child (List.mem_filterMap.2 ⟨_, hp, rfl⟩)

/-- What stands below a tight expression is tight: its operands bind at least as tightly, and its
arguments and indices have brackets. -/
theorem IsTight.child {nodes : Array Node} (hs : Sorted nodes) (hr : Ranked nodes)
    {id child : NodeId} {node : Node} (h : IsTight nodes Shape.closesType id)
    (hn : nodes[id]? = some node) (hstop : node.shape.closesType = false)
    (hc : child ∈ node.children) : IsTight nodes Shape.closesType child := by
  obtain ⟨found, hf, h⟩ := h
  obtain rfl : node = found := Option.some.inj (hn.symm.trans hf)
  obtain ⟨he, hp⟩ := h.resolve_left (by simp [hstop])
  obtain ⟨shape, span⟩ := node
  have operand {rank : Nat} (hpart : .node .operand child ∈ shape.parts)
      (ho : (rank, child) ∈ shape.operands) (hrank : Power.compare.rank < rank) :
      IsTight nodes Shape.closesType child :=
    isTight_of_operand (hs.part hn hpart) (hr id _ hn rank child ho) hrank
  cases shape with
  | identifier | integer | string => cases hc
  | paren | tuple | array | block => cases hstop
  | unary op inner =>
    obtain rfl : child = inner := List.mem_singleton.1 hc
    exact operand (.head _) (.head _) (by decide)
  | binary op lhs rhs =>
    have hlt : Power.compare.rank < op.tier.rank := hp
    rcases List.mem_pair.1 hc with rfl | rfl
    · exact operand (.head _) (.head _) hlt
    · exact operand (.tail _ (.head _)) (.tail _ (.head _)) (Nat.lt_succ_of_lt hlt)
  | call callee arguments =>
    rcases List.mem_pair.1 hc with rfl | rfl
    · exact operand (.head _) (.head _) (by decide)
    · have htuple : HasRole nodes .tuple child := hs.part hn (.tail _ (.head _))
      refine isTight_of_bracketed htuple fun shape ha => ?_
      cases shape <;> first | rfl | cases ha
  | index target indices =>
    rcases List.mem_pair.1 hc with rfl | rfl
    · exact operand (.head _) (.head _) (by decide)
    · have harray : HasRole nodes .array child := hs.part hn (.tail _ (.head _))
      refine isTight_of_bracketed harray fun shape ha => ?_
      cases shape <;> first | rfl | cases ha
  | member object name =>
    obtain rfl : child = object := List.mem_singleton.1 hc
    exact operand (.head _) (.head _) (by decide)
  | _ => cases he

theorem IsTight.exposed {nodes : Array Node} (hs : Sorted nodes) (hr : Ranked nodes)
    {top id : NodeId} (ht : IsTight nodes Shape.closesType top)
    (h : Exposed nodes Shape.closesType top id) : IsTight nodes Shape.closesType id := by
  induction h with
  | top => exact ht
  | child _ hn hstop hc ih => exact ih.child hs hr hn hstop hc

theorem Shape.operand_of_mem_types {shape : Shape} {type : NodeId} (h : type ∈ shape.types) :
    .node .operand type ∈ shape.parts ∧ (Power.compare.rank + 1, type) ∈ shape.operands := by
  cases shape with
  | identifierPattern | functionSignature | yieldAttribute =>
    simp only [types, Option.mem_toList, List.mem_singleton] at h
    simp [parts, operands, types, h]
  | _ => cases h

/-- In the types of a tree no operator is a comparison or binds even more loosely, but below
brackets and statements. -/
theorem Parsed.ofTokens_typesEnd (tokens : Tokens) (file : String) (options : Options) :
    (ofTokens tokens file options).tree.TypesEnd Shape.closesType := by
  obtain ⟨hs, -, -⟩ := ofTokens_sorted tokens file options
  have hr := ofTokens_ranked tokens file options
  intro id node hn type ht i hi op lhs rhs span hb
  obtain ⟨hpart, hoperand⟩ := Shape.operand_of_mem_types ht
  have htop := isTight_of_operand (hs.part hn hpart) (hr id node hn _ _ hoperand)
    (Nat.lt_succ_self _)
  obtain ⟨found, hf, htight⟩ := htop.exposed hs hr hi
  obtain rfl := Option.some.inj (hb.symm.trans hf)
  obtain ⟨-, hp⟩ := htight.resolve_left Bool.false_ne_true
  have hp : Power.compare.rank < op.tier.rank := hp
  intro hmem
  simp only [List.mem_cons, List.not_mem_nil, or_false] at hmem
  rcases hmem with h | h | h <;> simp [h, Power.rank] at hp

/-- Brackets alone do not close off a type: a `do` in a type takes a comparison. -/
theorem Parsed.ofTokens_statement_in_type :
    let tokens : Tokens := ⟨[⟨.letWord, "let", default⟩, ⟨.identifier, "x", default⟩,
      ⟨.colon, ":", default⟩, ⟨.doWord, "do", default⟩, ⟨.identifier, "a", default⟩,
      ⟨.less, "<", default⟩, ⟨.identifier, "b", default⟩, ⟨.assignment, "=", default⟩,
      ⟨.integer, "1", default⟩, .endAt default], #[]⟩
    (ofTokens tokens "types.sm" {}).errors = [] ∧
      ¬(ofTokens tokens "types.sm" {}).tree.TypesEnd Shape.isBracketed := by
  intro tokens
  refine ⟨by decide +kernel, fun h => ?_⟩
  have hpattern : (ofTokens tokens "types.sm" {}).tree.get? 4 =
      some ⟨.identifierPattern ⟨"x", false, default⟩ (some 3) none, default⟩ := by decide +kernel
  have hdo : (ofTokens tokens "types.sm" {}).tree.nodes[3]? =
      some ⟨.doStatement 2, default⟩ := by decide +kernel
  have hless : (ofTokens tokens "types.sm" {}).tree.get? 2 =
      some ⟨.binary .less 0 1, default⟩ := by decide +kernel
  exact h 4 _ hpattern 3 (.head _) 2 (.child .top hdo rfl (.head _)) _ _ _ _ hless (.head _)

end Smaug
