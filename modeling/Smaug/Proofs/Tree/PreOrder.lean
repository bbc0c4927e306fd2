import Smaug.Proofs.Parse.Forest

/-! # Everything below a node

The pre-order of a node is the node and then the pre-orders of what it is made of.  A search that
keeps the nodes still to be visited on a stack passes through that order before it goes on with what
is further down on the stack.  In an arena in post-order a node and everything below it lie side by
side, with the node last; so the search visits none of them twice, and comes to an end.
-/

namespace Smaug

/-! ## Rows that may fail -/

theorem flatMapM_cons_eq_some {f : α → Option (List β)} {x : α} {xs : List α} {zs : List β} :
    (x :: xs).flatMapM f = some zs ↔
      ∃ as bs, f x = some as ∧ xs.flatMapM f = some bs ∧ zs = as ++ bs := by
  simp only [List.flatMapM_cons, Option.bind_eq_bind, Option.bind_eq_some_iff, Option.pure_def,
    Option.some.injEq, @eq_comm _ zs]
  constructor
  · rintro ⟨as, hx, bs, hb, h⟩
    exact ⟨as, bs, hx, hb, h⟩
  · rintro ⟨as, bs, hx, hb, h⟩
    exact ⟨as, hx, bs, hb, h⟩

/-- What is in the list of a row is in the list of one of its items, and that list is a run of the
whole. -/
theorem exists_of_mem_flatMapM {f : α → Option (List β)} {xs : List α} {zs : List β}
    (h : xs.flatMapM f = some zs) {z : β} (hz : z ∈ zs) :
    ∃ x ∈ xs, ∃ ys, f x = some ys ∧ z ∈ ys ∧ ys <:+: zs := by
  induction xs generalizing zs with
  | nil =>
    obtain rfl : [] = zs := Option.some.inj h
    cases hz
  | cons x xs ih =>
    obtain ⟨as, bs, hx, hb, rfl⟩ := flatMapM_cons_eq_some.1 h
    rcases List.mem_append.1 hz with hz | hz
    · exact ⟨x, List.mem_cons_self, as, hx, hz, (List.prefix_append as bs).isInfix⟩
    · obtain ⟨y, hy, ys, hf, hz, hi⟩ := ih hb hz
      exact ⟨y, List.mem_cons_of_mem x hy, ys, hf, hz,
        hi.trans (List.suffix_append as bs).isInfix⟩

theorem flatMapM_perm {f g : α → Option (List β)}
    (h : ∀ x ys, f x = some ys → ∃ zs, g x = some zs ∧ zs.Perm ys) {xs : List α} {ys : List β}
    (hf : xs.flatMapM f = some ys) : ∃ zs, xs.flatMapM g = some zs ∧ zs.Perm ys := by
  induction xs generalizing ys with
  | nil => exact ⟨ys, hf, .refl ys⟩
  | cons x xs ih =>
    obtain ⟨as, bs, hx, hb, rfl⟩ := flatMapM_cons_eq_some.1 hf
    obtain ⟨cs, hc, hca⟩ := h x as hx
    obtain ⟨ds, hd, hdb⟩ := ih hb
    exact ⟨cs ++ ds, flatMapM_cons_eq_some.2 ⟨cs, ds, hc, hd, rfl⟩, hca.append hdb⟩

/-- A run of a range is a range. -/
theorem eq_range'_of_infix {run : List Nat} {n : Nat} (h : run <:+: List.range n) :
    ∃ first, run = List.range' first run.length ∧ first + run.length ≤ n := by
  obtain ⟨before, after, h⟩ := h
  rw [List.range_eq_range', eq_comm, List.range'_eq_append_iff] at h
  obtain ⟨stop, hstop, h, -⟩ := h
  obtain ⟨first, hfirst, -, h⟩ := List.range'_eq_append_iff.1 h.symm
  refine ⟨0 + first * 1, ?_, ?_⟩
  · rw [h, List.length_range']
  · rw [h, List.length_range']
    omega

/-! ## Pre-order -/

/-- A node of an arena and everything below it, each node before what it is made of.  Fails on a
reference out of the arena, and where nodes lie more than `depth` deep. -/
def preOrder? (nodes : Array Node) : Nat → NodeId → Option (List NodeId)
  | 0, _ => none
  | depth + 1, id => do
    let node ← nodes[id]?
    return id :: (← node.children.flatMapM (preOrder? nodes depth))

section
variable {nodes : Array Node} {depth : Nat} {id : NodeId} {ids : List NodeId}

theorem preOrder?_succ :
    preOrder? nodes (depth + 1) id = some ids ↔
      ∃ node below, nodes[id]? = some node ∧
        node.children.flatMapM (preOrder? nodes depth) = some below ∧ ids = id :: below := by
  simp only [preOrder?, Option.bind_eq_bind, Option.bind_eq_some_iff, Option.pure_def,
    Option.some.injEq, @eq_comm _ ids]
  constructor
  · rintro ⟨node, hn, below, hb, h⟩
    exact ⟨node, below, hn, hb, h⟩
  · rintro ⟨node, below, hn, hb, h⟩
    exact ⟨node, hn, below, hb, h⟩

/-- The two orders list the same nodes. -/
theorem exists_preOrder? (h : postOrder? nodes depth id = some ids) :
    ∃ below, preOrder? nodes depth id = some below ∧ below.Perm ids := by
  induction depth generalizing id ids with
  | zero => cases h
  | succ depth ih =>
    obtain ⟨node, before, hn, hb, rfl⟩ := postOrder?_succ.1 h
    obtain ⟨after, ha, hp⟩ := flatMapM_perm (fun _ _ => ih) hb
    refine ⟨id :: after, preOrder?_succ.2 ⟨node, after, hn, ha, rfl⟩, ?_⟩
    exact (hp.cons id).trans (List.perm_append_singleton id before).symm

theorem getLast?_postOrder? (h : postOrder? nodes depth id = some ids) :
    ids.getLast? = some id := by
  cases depth with
  | zero => cases h
  | succ depth =>
    obtain ⟨node, below, -, -, rfl⟩ := postOrder?_succ.1 h
    exact List.getLast?_concat

/-- The post-order of a node holds that of each node below as a run. -/
theorem exists_run_postOrder? (h : postOrder? nodes depth id = some ids) {i : NodeId}
    (hi : i ∈ ids) : ∃ run, postOrder? nodes depth i = some run ∧ run <:+: ids := by
  induction depth generalizing id ids with
  | zero => cases h
  | succ depth ih =>
    obtain ⟨node, below, -, hb, rfl⟩ := postOrder?_succ.1 h
    rcases List.mem_append.1 hi with hi | hi
    · obtain ⟨child, -, inner, hc, hi, hinner⟩ := exists_of_mem_flatMapM hb hi
      obtain ⟨run, hr, hrun⟩ := ih hc hi
      exact ⟨run, postOrder?_mono (fun h => h) (Nat.le_succ depth) hr,
        (hrun.trans hinner).trans (List.prefix_append below [id]).isInfix⟩
    · obtain rfl := List.mem_singleton.1 hi
      exact ⟨below ++ [i], h, List.infix_rfl⟩

end

/-- In a complete forest every node and what lies below it are neighbours, up to the node. -/
theorem Forest.exists_range {nodes : Array Node} {roots : List NodeId} (h : Forest nodes roots)
    {id : Nat} (hid : id < nodes.size) :
    ∃ first ≤ id, postOrder? nodes nodes.size id = some (List.range' first (id + 1 - first)) := by
  obtain ⟨root, -, ids, hr, hi, hids⟩ := exists_of_mem_flatMapM h.order (List.mem_range.2 hid)
  obtain ⟨run, hrun, hrow⟩ := exists_run_postOrder? hr hi
  obtain ⟨first, hrange, -⟩ := eq_range'_of_infix (hrow.trans hids)
  have hlast := getLast?_postOrder? hrun
  rw [hrange, List.getLast?_range'] at hlast
  split at hlast
  · cases hlast
  · rename_i hne
    have hlast := Option.some.inj hlast
    have hlength : run.length = id + 1 - first := by omega
    exact ⟨first, by omega, by rw [hrun, ← hlength, ← hrange]⟩

/-! ## The search -/

namespace Tree

/-- If the search passes through the pre-order of each node, then so it does with a row of them. -/
theorem visit_row {tree : Tree} {order? : NodeId → Option (List NodeId)}
    (hnode : ∀ {id ids}, order? id = some ids → ∀ fuel out stack,
      tree.visit (ids.length + fuel) out (id :: stack) =
        tree.visit fuel (ids.reverse ++ out) stack)
    {row ids : List NodeId} (h : row.flatMapM order? = some ids) (fuel : Nat)
    (out stack : List NodeId) :
    tree.visit (ids.length + fuel) out (row ++ stack) =
      tree.visit fuel (ids.reverse ++ out) stack := by
  induction row generalizing ids out with
  | nil =>
    obtain rfl : [] = ids := Option.some.inj h
    rw [List.length_nil, Nat.zero_add]
    rfl
  | cons id row ih =>
    obtain ⟨as, bs, ha, hb, rfl⟩ := flatMapM_cons_eq_some.1 h
    rw [List.length_append, Nat.add_assoc, List.cons_append, hnode ha, ih hb, List.reverse_append,
      List.append_assoc]

/-- The search passes through the pre-order of the node on top of its stack. -/
theorem visit_preOrder? {tree : Tree} {depth : Nat} {id : NodeId} {ids : List NodeId}
    (h : preOrder? tree.nodes depth id = some ids) (fuel : Nat) (out stack : List NodeId) :
    tree.visit (ids.length + fuel) out (id :: stack) =
      tree.visit fuel (ids.reverse ++ out) stack := by
  induction depth generalizing id ids fuel out stack with
  | zero => cases h
  | succ depth ih =>
    obtain ⟨node, below, hn, hb, rfl⟩ := preOrder?_succ.1 h
    have hget : tree.get? id = some node := hn
    calc tree.visit ((id :: below).length + fuel) out (id :: stack)
      _ = tree.visit (below.length + fuel) (id :: out) (node.children ++ stack) := by
        rw [List.length_cons, Nat.succ_add, visit, hget]
        rfl
      _ = tree.visit fuel (below.reverse ++ id :: out) stack :=
        visit_row ih hb fuel (id :: out) stack
      _ = tree.visit fuel ((id :: below).reverse ++ out) stack := by
        rw [List.reverse_cons, List.append_assoc, List.singleton_append]

/-- In a tree with every node below a root the search comes to an end, and yields the pre-order. -/
theorem descendants?_eq_preOrder? {tree : Tree} (h : Forest tree.nodes tree.roots) {id : Nat}
    (hid : id < tree.nodes.size) :
    ∃ ids, tree.descendants? id = some ids ∧
      preOrder? tree.nodes tree.nodes.size id = some ids ∧
      ∃ first ≤ id, ids.Perm (List.range' first (id + 1 - first)) := by
  obtain ⟨first, hfirst, hpost⟩ := h.exists_range hid
  obtain ⟨ids, hpre, hperm⟩ := exists_preOrder? hpost
  have hlength : ids.length = id + 1 - first := by rw [hperm.length_eq, List.length_range']
  obtain ⟨fuel, hfuel⟩ : ∃ fuel, tree.nodes.size = ids.length + fuel :=
    ⟨tree.nodes.size - ids.length, by omega⟩
  refine ⟨ids, ?_, hpre, first, hfirst, hperm⟩
  rw [descendants?, hfuel, visit_preOrder? hpre, List.append_nil]
  cases fuel <;> simp only [visit, List.reverse_reverse]

end Tree

/-- In the tree of a parse the search for everything below a node comes to an end.  What it yields
is the pre-order of the node: no node twice, and as a set a run of the arena that ends with the
node. -/
theorem Parsed.ofTokens_descendants (tokens : Tokens) (file : String) (options : Options)
    {id : Nat} (h : id < (ofTokens tokens file options).tree.nodes.size) :
    let tree := (ofTokens tokens file options).tree
    ∃ ids, tree.descendants? id = some ids ∧
      preOrder? tree.nodes tree.nodes.size id = some ids ∧ ids.Nodup ∧
      ∃ first ≤ id, ∀ i : Nat, i ∈ ids ↔ first ≤ i ∧ i ≤ id := by
  intro tree
  obtain ⟨ids, hd, hp, first, hfirst, hperm⟩ :=
    Tree.descendants?_eq_preOrder? (ofTokens_forest tokens file options) h
  refine ⟨ids, hd, hp, hperm.nodup_iff.2 List.nodup_range', first, hfirst, fun i => ?_⟩
  rw [hperm.mem_iff, List.mem_range'_1]
  omega

/-- In `return f(a)` the call is visited before the function, the arguments and what is in them; the
arena has it behind all three. -/
theorem Parsed.ofTokens_descendants_call :
    let tokens : Tokens :=
      { tokens :=
          [⟨.returnWord, "return", ⟨0, 6⟩⟩, ⟨.identifier, "f", ⟨7, 8⟩⟩, ⟨.openParen, "(", ⟨8, 9⟩⟩,
            ⟨.identifier, "a", ⟨9, 10⟩⟩, ⟨.closeParen, ")", ⟨10, 11⟩⟩, .endAt (.emptyAt 11)]
        trivia := #[] }
    let tree := (ofTokens tokens "call.sm" {}).tree
    3 < tree.nodes.size ∧ tree.descendants? 3 = some [3, 0, 2, 1] ∧
      preOrder? tree.nodes tree.nodes.size 3 = some [3, 0, 2, 1] ∧ [3, 0, 2, 1].Nodup ∧
      ∃ first ≤ 3, ∀ i : Nat, i ∈ [3, 0, 2, 1] ↔ first ≤ i ∧ i ≤ 3 := by
  intro tokens tree
  have h : 3 < tree.nodes.size := by decide
  have hcall : tree.descendants? 3 = some [3, 0, 2, 1] := by decide
  obtain ⟨ids, hd, hp, hnodup, hrun⟩ := ofTokens_descendants tokens "call.sm" {} h
  obtain rfl : [3, 0, 2, 1] = ids := Option.some.inj (hcall.symm.trans hd)
  exact ⟨h, hd, hp, hnodup, hrun⟩

end Smaug
