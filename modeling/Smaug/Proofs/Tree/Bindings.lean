import Smaug.Proofs.Tree.Renumbered
import Smaug.Tree.Scope

/-! # Bindings of a copy

The names that a statement binds are told by its texts and by how its parts lie in each other, and
not by where any of it stands.  So a copy of a statement binds the names that the statement binds.
In an arena where nodes refer backward every statement has a list of names.
-/

namespace Smaug

/-! ## Rows that may fail -/

theorem mapM_copied {f : α → Option β} {g : γ → Option β} {number : α → γ}
    (h : ∀ x y, f x = some y → g (number x) = some y) {xs : List α} {ys : List β}
    (hf : xs.mapM f = some ys) : (xs.map number).mapM g = some ys := by
  induction xs generalizing ys with
  | nil => simpa using hf
  | cons x xs ih =>
    simp only [List.mapM_cons, Option.bind_eq_bind, Option.bind_eq_some_iff, List.map_cons] at hf ⊢
    obtain ⟨y, hy, zs, hz, hys⟩ := hf
    exact ⟨y, h x y hy, zs, ih hz, hys⟩

theorem exists_mapM {f : α → Option β} {xs : List α} (h : ∀ x ∈ xs, ∃ y, f x = some y) :
    ∃ ys, xs.mapM f = some ys := by
  induction xs with
  | nil => exact ⟨[], rfl⟩
  | cons x xs ih =>
    obtain ⟨⟨y, hy⟩, hxs⟩ := List.forall_mem_cons.1 h
    obtain ⟨ys, hys⟩ := ih hxs
    exact ⟨y :: ys, by simp [hy, hys]⟩

/-! ## One construct -/

namespace Shape

/-- The names that a pattern binds, with the names of its parts at hand. -/
def patternNames (names : NodeId → Option (List String)) : Shape → Option (List String)
  | identifierPattern name .. => some [name.text]
  | restPattern binder => names binder
  | tuplePattern elements => do return (← elements.mapM names).flatten
  | enumPattern _ arguments => names arguments
  | functionSignature arguments .. => names arguments
  | _ => some []

def structNames : Shape → List String
  | enumPattern name _ => [name.text]
  | _ => []

def statementNames (patternNames structNames names : NodeId → Option (List String)) :
    Shape → Option (List String)
  | letVariable pattern _ => patternNames pattern
  | letFunction name .. => some [name.text]
  | letEnum name .. => some [name.text]
  | letStruct pattern => structNames pattern
  | batchAttributes _ body => names body
  | transparentList _ statements => do return (← statements.mapM names).flatten
  | _ => some []

theorem structNames_renumbered (number : NodeId → NodeId) (shape : Shape) :
    (shape.renumbered number).structNames = shape.structNames := by
  cases shape <;> rfl

section
variable {f g : NodeId → Option (List String)} {number : NodeId → NodeId} {shape : Shape}
  {names : List String}

theorem flatten_mapM_copied {ids : List NodeId}
    (h : ∀ id names, f id = some names → g (number id) = some names)
    (hn : (do return (← ids.mapM f).flatten) = some names) :
    (do return (← (ids.map number).mapM g).flatten) = some names := by
  simp only [Option.bind_eq_bind, Option.bind_eq_some_iff] at hn ⊢
  obtain ⟨all, ha, hn⟩ := hn
  exact ⟨all, mapM_copied h ha, hn⟩

theorem exists_flatten_mapM {ids : List NodeId} (h : ∀ id ∈ ids, ∃ names, f id = some names) :
    ∃ names, (do return (← ids.mapM f).flatten : Option (List String)) = some names := by
  obtain ⟨all, ha⟩ := exists_mapM h
  exact ⟨all.flatten, by simp [ha]⟩

theorem patternNames_renumbered (h : ∀ id names, f id = some names → g (number id) = some names)
    (hn : shape.patternNames f = some names) :
    (shape.renumbered number).patternNames g = some names := by
  cases shape with
  | restPattern | enumPattern | functionSignature => exact h _ _ hn
  | tuplePattern => exact flatten_mapM_copied h hn
  | _ => exact hn

theorem patternNames_bare (h : shape.bare.patternNames f = some names) :
    shape.patternNames f = some names := by
  cases shape with
  | tuplePattern elements => simpa [bare, renumbered, patternNames] using h
  | _ => exact h

variable {f₁ g₁ f₂ g₂ : NodeId → Option (List String)}

theorem statementNames_renumbered
    (h₁ : ∀ id names, f₁ id = some names → g₁ (number id) = some names)
    (h₂ : ∀ id names, f₂ id = some names → g₂ (number id) = some names)
    (h : ∀ id names, f id = some names → g (number id) = some names)
    (hn : shape.statementNames f₁ f₂ f = some names) :
    (shape.renumbered number).statementNames g₁ g₂ g = some names := by
  cases shape with
  | letVariable => exact h₁ _ _ hn
  | letStruct => exact h₂ _ _ hn
  | batchAttributes => exact h _ _ hn
  | transparentList => exact flatten_mapM_copied h hn
  | _ => exact hn

theorem statementNames_bare (h : shape.bare.statementNames f₁ f₂ f = some names) :
    shape.statementNames f₁ f₂ f = some names := by
  cases shape with
  | transparentList form statements => simpa [bare, renumbered, statementNames] using h
  | _ => exact h

theorem exists_patternNames (h : ∀ child ∈ shape.children, ∃ names, f child = some names) :
    ∃ names, shape.patternNames f = some names := by
  cases shape with
  | restPattern | enumPattern | functionSignature => exact h _ (by simp [children])
  | tuplePattern => exact exists_flatten_mapM h
  | _ => exact ⟨_, rfl⟩

theorem exists_statementNames (h₁ : ∀ child ∈ shape.children, ∃ names, f₁ child = some names)
    (h₂ : ∀ child ∈ shape.children, ∃ names, f₂ child = some names)
    (h : ∀ child ∈ shape.children, ∃ names, f child = some names) :
    ∃ names, shape.statementNames f₁ f₂ f = some names := by
  cases shape with
  | letVariable => exact h₁ _ (by simp [children])
  | letStruct => exact h₂ _ (by simp [children])
  | batchAttributes => exact h _ (by simp [children])
  | transparentList => exact exists_flatten_mapM h
  | _ => exact ⟨_, rfl⟩

end

end Shape

/-! ## Trees -/

namespace Tree

theorem patternNames_succ (tree : Tree) (depth : Nat) (id : NodeId) :
    tree.patternNames (depth + 1) id =
      (tree.get? id).bind fun node => node.shape.patternNames (tree.patternNames depth) := by
  rw [patternNames]
  cases tree.get? id with
  | none => rfl
  | some node =>
    obtain ⟨shape, span⟩ := node
    cases shape <;> rfl

def structNames (tree : Tree) (id : NodeId) : Option (List String) :=
  (tree.get? id).map (·.shape.structNames)

theorem statementNames_succ (tree : Tree) (depth : Nat) (id : NodeId) :
    tree.statementNames (depth + 1) id =
      (tree.get? id).bind fun node =>
        node.shape.statementNames (tree.patternNames depth) tree.structNames
          (tree.statementNames depth) := by
  rw [statementNames]
  cases tree.get? id with
  | none => rfl
  | some node =>
    obtain ⟨shape, span⟩ := node
    cases shape with
    | letStruct pattern =>
      simp only [structNames, Shape.statementNames, Option.bind_eq_bind, Option.bind_some]
      cases tree.get? pattern with
      | none => rfl
      | some node =>
        obtain ⟨shape, span⟩ := node
        cases shape <;> rfl
    | _ => rfl

section
variable {tree tree' : Tree} {number : NodeId → NodeId} {depth deeper : Nat} {id : NodeId}
  {names : List String}

/-- The tree `tree` holds a copy of `tree'` with other numbers for the nodes. -/
def Holds (tree tree' : Tree) (number : NodeId → NodeId) : Prop :=
  ∀ (id : NodeId) (node' : Node), tree'.get? id = some node' →
    ∃ node, tree.get? (number id) = some node ∧ node.shape.bare = node'.shape.renumbered number

theorem Holds.patternNames (h : tree.Holds tree' number) (hd : depth ≤ deeper)
    (hn : tree'.patternNames depth id = some names) :
    tree.patternNames deeper (number id) = some names := by
  induction depth generalizing deeper id names with
  | zero => cases hn
  | succ depth ih =>
    obtain ⟨deeper, rfl⟩ : ∃ n, deeper = n + 1 := ⟨deeper - 1, by omega⟩
    rw [patternNames_succ, Option.bind_eq_some_iff] at hn ⊢
    obtain ⟨node', hi, hn⟩ := hn
    obtain ⟨node, hnode, hs⟩ := h id node' hi
    refine ⟨node, hnode, Shape.patternNames_bare ?_⟩
    rw [hs]
    exact Shape.patternNames_renumbered (fun _ _ => ih (Nat.le_of_succ_le_succ hd)) hn

theorem Holds.structNames (h : tree.Holds tree' number)
    (hn : tree'.structNames id = some names) : tree.structNames (number id) = some names := by
  obtain ⟨node', hi, rfl⟩ := Option.map_eq_some_iff.1 hn
  obtain ⟨node, hnode, hs⟩ := h id node' hi
  refine Option.map_eq_some_iff.2 ⟨node, hnode, ?_⟩
  have hnames := congrArg Shape.structNames hs
  rwa [Shape.structNames_renumbered, Shape.structNames_renumbered] at hnames

theorem Holds.statementNames (h : tree.Holds tree' number) (hd : depth ≤ deeper)
    (hn : tree'.statementNames depth id = some names) :
    tree.statementNames deeper (number id) = some names := by
  induction depth generalizing deeper id names with
  | zero => cases hn
  | succ depth ih =>
    obtain ⟨deeper, rfl⟩ : ∃ n, deeper = n + 1 := ⟨deeper - 1, by omega⟩
    have hd := Nat.le_of_succ_le_succ hd
    rw [statementNames_succ, Option.bind_eq_some_iff] at hn ⊢
    obtain ⟨node', hi, hn⟩ := hn
    obtain ⟨node, hnode, hs⟩ := h id node' hi
    refine ⟨node, hnode, Shape.statementNames_bare ?_⟩
    rw [hs]
    exact Shape.statementNames_renumbered (fun _ _ => h.patternNames hd) (fun _ _ => h.structNames)
      (fun _ _ => ih hd) hn

/-! ### Nodes that refer backward -/

variable (hb : ∀ (id : NodeId) (node : Node), tree.get? id = some node →
  ∀ child ∈ node.children, child < id)

include hb

theorem child_lt {node : Node} (hn : tree.get? id = some node) {child : NodeId}
    (hc : child ∈ node.children) (hd : id < depth + 1) (hi : id < tree.nodes.size) :
    child < depth ∧ child < tree.nodes.size :=
  have hlt := hb id node hn child hc
  ⟨Nat.lt_of_lt_of_le hlt (Nat.le_of_lt_succ hd), Nat.lt_trans hlt hi⟩

theorem exists_patternNames (hd : id < depth) (hi : id < tree.nodes.size) :
    ∃ names, tree.patternNames depth id = some names := by
  induction depth generalizing id with
  | zero => exact absurd hd (Nat.not_lt_zero _)
  | succ depth ih =>
    have hn : tree.get? id = some tree.nodes[id] := Array.getElem?_eq_getElem hi
    simp only [patternNames_succ, hn, Option.bind_some]
    refine Shape.exists_patternNames fun child hc => ?_
    obtain ⟨hd, hi⟩ := child_lt hb hn hc hd hi
    exact ih hd hi

theorem exists_statementNames (hd : id < depth) (hi : id < tree.nodes.size) :
    ∃ names, tree.statementNames depth id = some names := by
  induction depth generalizing id with
  | zero => exact absurd hd (Nat.not_lt_zero _)
  | succ depth ih =>
    have hn : tree.get? id = some tree.nodes[id] := Array.getElem?_eq_getElem hi
    simp only [statementNames_succ, hn, Option.bind_some]
    refine Shape.exists_statementNames (fun child hc => ?_) (fun child hc => ?_) fun child hc => ?_
    all_goals obtain ⟨hd, hi⟩ := child_lt hb hn hc hd hi
    · exact exists_patternNames hb hd hi
    · exact ⟨_, congrArg (Option.map _) (Array.getElem?_eq_getElem hi)⟩
    · exact ih hd hi

end

end Tree

end Smaug
