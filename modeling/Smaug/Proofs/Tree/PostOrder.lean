import Mathlib.Data.List.Perm.Basic
import Smaug.Tree.Basic

/-! # Arenas in post-order

A forest in an arena is complete when its post-order is the arena from one end to the other.  Then
nodes refer backward only, and every node is referred to once: by another node or from the top
level.  Such a forest grows by a node that takes the place of the last trees.
-/

namespace Smaug

/-! ## Rows that may fail -/

theorem flatMapM_append {f : α → Option (List β)} {xs ys : List α} {zs : List β} :
    (xs ++ ys).flatMapM f = some zs ↔
      ∃ as bs, xs.flatMapM f = some as ∧ ys.flatMapM f = some bs ∧ zs = as ++ bs := by
  induction xs generalizing zs with
  | nil => simp [eq_comm]
  | cons x xs ih =>
    simp only [List.cons_append, List.flatMapM_cons, Option.bind_eq_bind, Option.bind_eq_some_iff,
      ih, Option.pure_def, Option.some.injEq]
    constructor
    · rintro ⟨as, hx, _, ⟨bs, cs, hb, hc, rfl⟩, rfl⟩
      exact ⟨as ++ bs, cs, ⟨as, hx, bs, hb, rfl⟩, hc, by simp⟩
    · rintro ⟨_, cs, ⟨as, hx, bs, hb, rfl⟩, hc, rfl⟩
      exact ⟨as, hx, bs ++ cs, ⟨bs, cs, hb, hc, rfl⟩, by simp⟩

theorem flatMapM_mono {f g : α → Option (List β)} (h : ∀ x ys, f x = some ys → g x = some ys)
    {xs : List α} {ys : List β} (hf : xs.flatMapM f = some ys) : xs.flatMapM g = some ys := by
  induction xs generalizing ys with
  | nil => exact hf
  | cons x xs ih =>
    simp only [List.flatMapM_cons, Option.bind_eq_bind, Option.bind_eq_some_iff] at hf ⊢
    obtain ⟨as, hx, bs, hb, hy⟩ := hf
    exact ⟨as, h x as hx, bs, ih hb, hy⟩

/-! ## Post-order -/

/-- A node of an arena and everything below it, each node after what it is made of.  Fails on a
reference out of the arena, and where nodes lie more than `depth` deep. -/
def postOrder? (nodes : Array Node) : Nat → NodeId → Option (List NodeId)
  | 0, _ => none
  | depth + 1, id => do
    let node ← nodes[id]?
    return (← node.children.flatMapM (postOrder? nodes depth)) ++ [id]

theorem postOrder?_succ {nodes : Array Node} {depth : Nat} {id : NodeId} {ids : List NodeId} :
    postOrder? nodes (depth + 1) id = some ids ↔
      ∃ node below, nodes[id]? = some node ∧
        node.children.flatMapM (postOrder? nodes depth) = some below ∧ ids = below ++ [id] := by
  simp only [postOrder?, Option.bind_eq_bind, Option.bind_eq_some_iff, Option.pure_def,
    Option.some.injEq, @eq_comm _ _ ids]
  constructor
  · rintro ⟨node, hn, below, hb, h⟩
    exact ⟨node, below, hn, hb, h⟩
  · rintro ⟨node, below, hn, hb, h⟩
    exact ⟨node, hn, below, hb, h⟩

/-- What is added to an arena changes nothing below the nodes that are there. -/
theorem postOrder?_mono {nodes more : Array Node}
    (h : ∀ {id : NodeId} {node : Node}, nodes[id]? = some node → more[id]? = some node)
    {depth deeper : Nat} (hd : depth ≤ deeper) {id : NodeId} {ids : List NodeId}
    (hi : postOrder? nodes depth id = some ids) : postOrder? more deeper id = some ids := by
  induction depth generalizing deeper id ids with
  | zero => cases hi
  | succ depth ih =>
    obtain ⟨deeper, rfl⟩ : ∃ n, deeper = n + 1 := ⟨deeper - 1, by omega⟩
    obtain ⟨node, below, hn, hb, rfl⟩ := postOrder?_succ.1 hi
    have hd : depth ≤ deeper := Nat.le_of_succ_le_succ hd
    have hb := flatMapM_mono (fun _ _ => ih hd) hb
    exact postOrder?_succ.2 ⟨node, below, h hn, hb, rfl⟩

theorem getElem?_push_of_some {nodes : Array Node} {node added : Node} {id : NodeId}
    (h : nodes[id]? = some node) : (nodes.push added)[id]? = some node := by
  obtain ⟨hlt, -⟩ := Array.getElem?_eq_some_iff.1 h
  rw [Array.getElem?_push, if_neg (Nat.ne_of_lt hlt), h]

/-- The trees under `roots` are the whole arena, in post-order. -/
structure Forest (nodes : Array Node) (roots : List NodeId) : Prop where
  order : roots.flatMapM (postOrder? nodes nodes.size) = some (List.range nodes.size)
  backward : ∀ id (node : Node), nodes[id]? = some node → ∀ child ∈ node.children, child < id
  once : (roots ++ nodes.toList.flatMap Node.children).Perm (List.range nodes.size)

theorem Forest.empty : Forest #[] [] where
  order := rfl
  backward := by simp
  once := by simp

/-- A single tree that fills the arena. -/
theorem Forest.singleton {nodes : Array Node} {root : NodeId} (h : Forest nodes [root]) :
    postOrder? nodes nodes.size root = some (List.range nodes.size) := by
  simpa using h.order

/-- A new node takes the place of the last trees. -/
theorem Forest.push {nodes : Array Node} {roots : List NodeId} (node : Node)
    (h : Forest nodes (roots ++ node.children)) :
    Forest (nodes.push node) (roots ++ [nodes.size]) where
  order := by
    obtain ⟨as, bs, ha, hb, hr⟩ := flatMapM_append.1 h.order
    have hn : postOrder? (nodes.push node) (nodes.size + 1) nodes.size =
        some (bs ++ [nodes.size]) := by
      refine postOrder?_succ.2 ⟨node, bs, by simp, ?_, rfl⟩
      exact flatMapM_mono (fun _ _ => postOrder?_mono getElem?_push_of_some (Nat.le_refl _)) hb
    rw [Array.size_push, flatMapM_append]
    refine ⟨as, bs ++ [nodes.size], ?_, ?_, ?_⟩
    · exact flatMapM_mono (fun _ _ => postOrder?_mono getElem?_push_of_some (Nat.le_succ _)) ha
    · simp [hn]
    · rw [List.range_succ, hr, List.append_assoc]
  backward := by
    intro id parent hid child hc
    rw [Array.getElem?_push] at hid
    split at hid
    · rename_i hs
      cases hid
      have hm : child ∈ List.range nodes.size :=
        h.once.mem_iff.1 (by simp [hc])
      simpa [hs] using hm
    · exact h.backward id parent hid child hc
  once := by
    rw [Array.size_push, List.range_succ, Array.toList_push, List.flatMap_append]
    have hswap : (roots ++ [nodes.size] ++
        (nodes.toList.flatMap Node.children ++ [node].flatMap Node.children)).Perm
        (roots ++ node.children ++ nodes.toList.flatMap Node.children ++ [nodes.size]) := by
      rw [List.perm_iff_count]
      intro id
      simp only [List.count_append, List.flatMap_singleton]
      omega
    exact hswap.trans (h.once.append_right _)

namespace Tree

def roots (tree : Tree) : List NodeId := tree.header.toList ++ tree.statements

def postOrder? (tree : Tree) : Option (List NodeId) :=
  tree.roots.flatMapM (Smaug.postOrder? tree.nodes tree.nodes.size)

end Tree
end Smaug
