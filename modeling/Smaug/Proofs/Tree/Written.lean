import Smaug.Proofs.Tree.PostOrder
import Smaug.Proofs.Tree.Slots

/-! # Writing a tree out

A node is written by writing its slots one after the other, and a slot for a node by writing that
node.  What comes out are signs, to be compared with those of the tokens a tree was read from.
-/

namespace Smaug

def Slot.written? (write : NodeId → Option (List Sign)) : Slot → Option (List Sign)
  | sign s => some [s]
  | node id => write id
  | bare id => (write id).map List.tail

/-- The signs a node of an arena is written in.  Fails on a reference out of the arena, and where
nodes lie more than `depth` deep. -/
def written? (nodes : Array Node) : Nat → NodeId → Option (List Sign)
  | 0, _ => none
  | depth + 1, id => do
    let node ← nodes[id]?
    node.shape.slots.flatMapM (Slot.written? (written? nodes depth))

theorem written?_succ {nodes : Array Node} {depth : Nat} {id : NodeId} {signs : List Sign} :
    written? nodes (depth + 1) id = some signs ↔
      ∃ node, nodes[id]? = some node ∧
        node.shape.slots.flatMapM (Slot.written? (written? nodes depth)) = some signs := by
  rw [written?, Option.bind_eq_bind, Option.bind_eq_some_iff]

theorem Slot.written?_mono {write write' : NodeId → Option (List Sign)}
    (h : ∀ id signs, write id = some signs → write' id = some signs) (slot : Slot)
    (signs : List Sign) (hs : slot.written? write = some signs) :
    slot.written? write' = some signs := by
  cases slot with
  | sign sign => exact hs
  | node id => exact h id signs hs
  | bare id =>
    obtain ⟨all, ha, rfl⟩ := Option.map_eq_some_iff.1 hs
    exact Option.map_eq_some_iff.2 ⟨all, h id all ha, rfl⟩

/-- What is added to an arena changes nothing in how the nodes that are there are written. -/
theorem written?_mono {nodes more : Array Node}
    (h : ∀ {id : NodeId} {node : Node}, nodes[id]? = some node → more[id]? = some node)
    {depth deeper : Nat} (hd : depth ≤ deeper) {id : NodeId} {signs : List Sign}
    (hs : written? nodes depth id = some signs) : written? more deeper id = some signs := by
  induction depth generalizing deeper id signs with
  | zero => cases hs
  | succ depth ih =>
    obtain ⟨deeper, rfl⟩ : ∃ n, deeper = n + 1 := ⟨deeper - 1, by omega⟩
    obtain ⟨node, hn, hw⟩ := written?_succ.1 hs
    have hd : depth ≤ deeper := Nat.le_of_succ_le_succ hd
    exact written?_succ.2
      ⟨node, h hn, flatMapM_mono (Slot.written?_mono fun _ _ => ih hd) hw⟩

def rowWritten? (nodes : Array Node) (slots : List Slot) : Option (List Sign) :=
  slots.flatMapM (Slot.written? (written? nodes nodes.size))

theorem rowWritten?_append {nodes : Array Node} {slots more : List Slot} {signs : List Sign} :
    rowWritten? nodes (slots ++ more) = some signs ↔
      ∃ a b, rowWritten? nodes slots = some a ∧ rowWritten? nodes more = some b ∧
        signs = a ++ b := flatMapM_append

theorem rowWritten?_signs (nodes : Array Node) (signs : List Sign) :
    rowWritten? nodes (signs.map .sign) = some signs := by
  induction signs with
  | nil => rfl
  | cons sign signs ih =>
    rw [rowWritten?] at ih ⊢
    rw [List.map_cons, List.flatMapM_cons, ih]
    rfl

theorem rowWritten?_push {nodes : Array Node} {slots : List Slot} {signs : List Sign}
    (node : Node) (h : rowWritten? nodes slots = some signs) :
    rowWritten? (nodes.push node) slots = some signs := by
  refine flatMapM_mono (Slot.written?_mono fun id signs hs => ?_) h
  rw [Array.size_push]
  exact written?_mono getElem?_push_of_some (Nat.le_succ _) hs

/-- A new node is written like the slots it takes the place of. -/
theorem written?_push {nodes : Array Node} (node : Node) {signs : List Sign}
    (h : rowWritten? nodes node.shape.slots = some signs) :
    written? (nodes.push node) (nodes.size + 1) nodes.size = some signs := by
  refine written?_succ.2 ⟨node, Array.getElem?_push_size, ?_⟩
  exact flatMapM_mono
    (Slot.written?_mono fun _ _ => written?_mono getElem?_push_of_some (Nat.le_refl _)) h

def Tree.written? (tree : Tree) (id : NodeId) : Option (List Sign) :=
  Smaug.written? tree.nodes tree.nodes.size id

end Smaug
