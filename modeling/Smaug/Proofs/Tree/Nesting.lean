import Mathlib
import Smaug.Proofs.Tree.Parts

/-! # Nested brackets

How many pairs of brackets there are on the way from the top of a tree down to a node.  For some
parts of constructs brackets may not count: the block that is the body of a function is one more
statement, as it were, rather than an operand within it.
-/

namespace Smaug

def Shape.isBracketed : Shape → Bool
  | paren .. | tuple .. | array .. | block .. | tuplePattern .. | transparentList .braced _
  | matchStatement .. | letEnum .. => true
  | _ => false

/-- Whether a part of a construct is an operand or a pattern, or made of some.  A part of another
role stands as a statement, as the body of one or as the list under attributes, or it has no
brackets. -/
def Role.isNested : Role → Bool
  | operand | tuple | array | arguments | pattern | element => true
  | _ => false

/-- The pairs of brackets that a node adds, where those of parts in some roles count. -/
def brackets (nodes : Array Node) (counts : Role → Bool) (role : Role) (id : NodeId) : Nat :=
  if counts role && (nodes[id]?).any (·.shape.isBracketed) then 1 else 0

/-- A way down from the top of a tree to a node, and the pairs of brackets on it. -/
inductive Tree.Descends (tree : Tree) (counts : Role → Bool) : Nat → NodeId → Prop
  | header (h : i ∈ tree.header) : Descends tree counts (brackets tree.nodes counts .header i) i
  | statement (h : i ∈ tree.statements) :
      Descends tree counts (brackets tree.nodes counts .statement i) i
  | child (h : Descends tree counts n parent) (hn : tree.get? parent = some node)
      (hc : (role, i) ∈ node.shape.references) :
      Descends tree counts (n + brackets tree.nodes counts role i) i

/-- No way down from a node has more than `k` pairs of brackets that count below that node. -/
inductive Nested (nodes : Array Node) (counts : Role → Bool) : Nat → NodeId → Prop
  | intro {node : Node} {i : NodeId} (hn : nodes[i]? = some node)
      (hb : ∀ role child, (role, child) ∈ node.shape.references →
        brackets nodes counts role child ≤ k)
      (hc : ∀ role child, (role, child) ∈ node.shape.references →
        Nested nodes counts (k - brackets nodes counts role child) child) :
      Nested nodes counts k i

structure NestedPart (nodes : Array Node) (counts : Role → Bool) (k : Nat) (role : Role)
    (id : NodeId) : Prop where
  brackets_le : brackets nodes counts role id ≤ k
  nested : Nested nodes counts (k - brackets nodes counts role id) id

section
variable {nodes : Array Node} {counts : Role → Bool} {k k' : Nat} {role role' : Role} {id : NodeId}
  {node : Node}

theorem brackets_le_one : brackets nodes counts role id ≤ 1 := by
  unfold brackets
  split <;> omega

theorem brackets_of_not_counts (h : counts role = false) : brackets nodes counts role id = 0 := by
  simp [brackets, h]

theorem brackets_of_not_isBracketed (hn : nodes[id]? = some node)
    (h : node.shape.isBracketed = false) : brackets nodes counts role id = 0 := by
  simp [brackets, hn, h]

theorem brackets_eq_of_counts (h : counts role = counts role') :
    brackets nodes counts role id = brackets nodes counts role' id := by
  simp [brackets, h]

namespace Nested

theorem exists_node (h : Nested nodes counts k id) : ∃ node, nodes[id]? = some node := by
  cases h with
  | intro hn => exact ⟨_, hn⟩

theorem mono (h : Nested nodes counts k id) (hk : k ≤ k') : Nested nodes counts k' id := by
  induction h generalizing k' with
  | intro hn hb _ ih =>
    exact .intro hn (fun role child hr => Nat.le_trans (hb role child hr) hk)
      fun role child hr => ih role child hr (Nat.sub_le_sub_right hk _)

end Nested

theorem brackets_mono {more : Array Node}
    (hm : ∀ {id : NodeId} {node : Node}, nodes[id]? = some node → more[id]? = some node)
    (hn : nodes[id]? = some node) :
    brackets more counts role id = brackets nodes counts role id := by
  simp [brackets, hn, hm hn]

theorem Nested.grow {more : Array Node}
    (hm : ∀ {id : NodeId} {node : Node}, nodes[id]? = some node → more[id]? = some node)
    (h : Nested nodes counts k id) : Nested more counts k id := by
  induction h with
  | intro hn hb hc ih =>
    have heq (role : Role) (child : NodeId) (hr : (role, child) ∈ _) :
        brackets more counts role child = brackets nodes counts role child :=
      have ⟨_, hnode⟩ := (hc role child hr).exists_node
      brackets_mono hm hnode
    exact .intro (hm hn) (fun role child hr => heq role child hr ▸ hb role child hr)
      fun role child hr => heq role child hr ▸ ih role child hr

namespace NestedPart

theorem of_nested (h : Nested nodes counts k id) : NestedPart nodes counts (k + 1) role id where
  brackets_le := Nat.le_trans brackets_le_one (Nat.le_add_left 1 k)
  nested := h.mono (Nat.le_sub_of_add_le (Nat.add_le_add_left brackets_le_one k))

theorem of_brackets (hb : brackets nodes counts role id = 0) (h : Nested nodes counts k id) :
    NestedPart nodes counts k role id where
  brackets_le := hb ▸ Nat.zero_le k
  nested := by rwa [hb, Nat.sub_zero]

theorem toNested (h : NestedPart nodes counts k role id) : Nested nodes counts k id :=
  h.nested.mono (Nat.sub_le _ _)

theorem mono (h : NestedPart nodes counts k role id) (hk : k ≤ k') :
    NestedPart nodes counts k' role id where
  brackets_le := Nat.le_trans h.brackets_le hk
  nested := h.nested.mono (Nat.sub_le_sub_right hk _)

theorem of_counts (hr : counts role = counts role') (h : NestedPart nodes counts k role id) :
    NestedPart nodes counts k role' id where
  brackets_le := brackets_eq_of_counts hr ▸ h.brackets_le
  nested := brackets_eq_of_counts hr ▸ h.nested

theorem grow {more : Array Node}
    (hm : ∀ {id : NodeId} {node : Node}, nodes[id]? = some node → more[id]? = some node)
    (h : NestedPart nodes counts k role id) : NestedPart more counts k role id := by
  obtain ⟨hb, hn⟩ := h
  obtain ⟨node, hnode⟩ := hn.exists_node
  have heq : brackets more counts role id = brackets nodes counts role id := brackets_mono hm hnode
  exact ⟨heq ▸ hb, heq ▸ hn.grow hm⟩

end NestedPart

/-- A node nests as deep as its parts. -/
theorem Nested.of_parts (hn : nodes[id]? = some node)
    (h : ∀ role child, .node role child ∈ node.shape.parts → NestedPart nodes counts k role child) :
    Nested nodes counts k id := by
  have hpart (role : Role) (child : NodeId) (hr : (role, child) ∈ node.shape.references) :
      NestedPart nodes counts k role child := by
    obtain ⟨part, hp, hpart⟩ := List.mem_filterMap.1 hr
    cases part <;> cases hpart
    exact h role child hp
  exact .intro hn (fun role child hr => (hpart role child hr).brackets_le)
    fun role child hr => (hpart role child hr).nested

/-- Where the top of a tree nests no deeper, nothing below it does. -/
theorem Tree.Descends.le {tree : Tree} {n : Nat}
    (hh : ∀ id ∈ tree.header, NestedPart tree.nodes counts k .header id)
    (hs : ∀ id ∈ tree.statements, NestedPart tree.nodes counts k .statement id)
    (h : tree.Descends counts n id) : n ≤ k ∧ Nested tree.nodes counts (k - n) id := by
  induction h with
  | header h => exact ⟨(hh _ h).brackets_le, (hh _ h).nested⟩
  | statement h => exact ⟨(hs _ h).brackets_le, (hs _ h).nested⟩
  | @child n parent node role id _ hn hc ih =>
    obtain ⟨hle, hnested⟩ := ih
    cases hnested with
    | intro hn' hb hc' =>
      obtain rfl := Option.some.inj (hn.symm.trans hn')
      have hle' := hb role id hc
      exact ⟨by omega, by rw [← Nat.sub_sub]; exact hc' role id hc⟩

end

end Smaug
