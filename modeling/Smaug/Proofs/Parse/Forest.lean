import Smaug.Proofs.Parse.Reached
import Smaug.Proofs.Parse.Reading
import Smaug.Proofs.Tree.PostOrder

/-! # The arena of a parse

The nodes on the stack of a parse are the roots of a forest that fills the arena.  Both moves keep
it so, and a failure takes back whatever was built; so the tree of a module is in post-order and
holds nothing but what its header and its statements are made of.
-/

namespace Smaug

namespace Parse

open Grammar Relation

theorem Move.forest {stack stack' : List Slot} {s s' : State} (h : Move (stack, s) (stack', s'))
    (hf : Forest s.nodes (nodesOf stack)) : Forest s'.nodes (nodesOf stack') := by
  cases h with
  | shift => simpa using hf
  | reduce shape span =>
    rw [nodesOf_append, nodesOf_slots] at hf
    rw [nodesOf_append]
    exact hf.push ⟨shape, span⟩
  | reduceBare pattern value span =>
    rw [nodesOf_append] at hf ⊢
    exact hf.push ⟨.letVariable pattern value, span⟩
  | level => exact hf

theorem Reads.forest {before after : List Slot} {s s' : State} {roots : List NodeId}
    (h : Reads before s after s') (hf : Forest s.nodes (roots ++ nodesOf before)) :
    Forest s'.nodes (roots ++ nodesOf after) := by
  have hrun {c c' : List Slot × State} (h : ReflTransGen Move c c')
      (hf : Forest c.2.nodes (nodesOf c.1)) : Forest c'.2.nodes (nodesOf c'.1) := by
    induction h with
    | refl => exact hf
    | tail _ hm ih => exact hm.forest ih
  simpa using hrun (h (roots.map .node)) (by simpa using hf)

theorem HeaderRead.reads {s s' : State} {header : Option NodeId} (h : HeaderRead s header s') :
    Reads [] s (header.toList.map .node) s' := by
  cases h with
  | none => exact .refl
  | some hm hp => exact ((Reads.word hm).next (.path hp)).reduce (.moduleHeader _)

theorem statement_reads {setup : Setup} (ht : setup.table = .standard) {s s' : State}
    {id : NodeId} (h : (Rule.form .statement).parse setup s = .done id s') :
    Reads [] s [.node id] s' := by
  have hr : ReadsRule (.form .statement) s id s' := parse_done ht reads_of_production trivial h
  exact hr

theorem Reached.forest {setup : Setup} (ht : setup.table = .standard) {tokens : List Token}
    {s : State} {header : Option NodeId} {ids : List NodeId}
    (h : Reached setup tokens s header ids) : Forest s.nodes (header.toList ++ ids) := by
  induction h with
  | start =>
    rw [State.start_nodes]
    exact .empty
  | header h _ =>
    have hf : Forest (State.start tokens).nodes ([] ++ nodesOf []) := by
      rw [State.start_nodes]
      exact .empty
    simpa using h.reads.forest hf
  | statement _ _ h ih =>
    rw [← List.append_assoc]
    exact (statement_reads ht h).forest (by simpa using ih)
  | skip _ _ hn ih =>
    rw [hn]
    exact ih

end Parse

theorem Parsed.ofTokens_forest (tokens : Tokens) (file : String) (options : Options) :
    let tree := (Parsed.ofTokens tokens file options).tree
    Forest tree.nodes tree.roots := by
  rcases Parse.ofTokens_reached tokens file options with h | ⟨s, header, ids, hr, h⟩
  · rw [h]
    exact .empty
  · rw [h]
    exact hr.forest rfl

theorem Parsed.ofSource_forest (source file : String) (options : Options) :
    let tree := (Parsed.ofSource source file options).tree
    Forest tree.nodes tree.roots := by
  unfold ofSource
  split
  · exact ofTokens_forest _ file options
  · exact .empty

/-- The arena of every tree is the post-order of what stands at its top level.  So nodes refer
backward only, and each is referred to once: by another node or from the top level. -/
theorem Parsed.ofTokens_postOrder (tokens : Tokens) (file : String) (options : Options) :
    let tree := (Parsed.ofTokens tokens file options).tree
    tree.postOrder? = some (List.range tree.nodes.size) ∧
      (∀ id node, tree.get? id = some node → ∀ child ∈ node.children, child < id) ∧
      (tree.roots ++ tree.nodes.toList.flatMap Node.children).Perm
        (List.range tree.nodes.size) := by
  have hf := ofTokens_forest tokens file options
  exact ⟨hf.order, hf.backward, hf.once⟩

end Smaug
