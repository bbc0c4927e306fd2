import Smaug.Proofs.Parse.Layout

/-! # Every tree is well-sorted

A rule yields a node of its own role, and it reads every part of its construct by a rule for the
role of that part.  Since a failure takes back the nodes that were built for it, a reference never
comes to lead to a node of another sort.
-/

namespace Smaug

namespace Parse

open Grammar

variable {s s' : State} {id : NodeId}

/-- A rule keeps the arena well-sorted and yields a node of its role, where the node to its left is
an operand. -/
def Sorts : Meaning := fun rule s id s' =>
  Sorted s.nodes → (∀ left ∈ rule.left, HasRole s.nodes .operand left) →
    Sorted s'.nodes ∧ HasRole s'.nodes (rule.role s.kind) id

abbrev SortsKept : Meaning := fun rule s id s' => Kept s s' ∧ Sorts rule s id s'

theorem Grown.hasRole (h : Grown s s') {role : Role} (hr : HasRole s.nodes role id) :
    HasRole s'.nodes role id := hr.mono h.getElem?

theorem hasRole_push {nodes : Array Node} {role : Role} {shape : Shape} (span : Span)
    (ha : role.admits shape) : HasRole (nodes.push ⟨shape, span⟩) role nodes.size :=
  ⟨_, Array.getElem?_push_size, ha⟩

theorem no_left {rule : Rule} {nodes : Array Node} (hl : rule.left = []) :
    ∀ left ∈ rule.left, HasRole nodes .operand left := by
  simp [hl]

theorem SortsKept.grown {rule : Rule} (h : SortsKept rule s id s') : Grown s s' := h.1.toGrown

/-- The parts of a construct play their roles. -/
theorem sorts_of_laid {parts : List Part} (h : Laid SortsKept s parts s') (hs : Sorted s.nodes) :
    Sorted s'.nodes ∧ ∀ role id, .node role id ∈ parts → HasRole s'.nodes role id := by
  induction h with
  | token | name => simpa using hs
  | rule hr hq hw =>
    obtain ⟨h, hi⟩ := hr.2 hs (no_left (Role.left_of_reads hq))
    simpa [h] using hi.within hw
  | taken ho hc =>
    obtain ⟨h, hl⟩ := ho.2 hs (no_left rfl)
    obtain ⟨h, hi⟩ := hc.2 h (by simpa [Rule.left, Rule.role] using hl)
    simpa [h] using show HasRole _ .operand _ from hi
  | built role shape _ _ ha ih =>
    obtain ⟨h, hp⟩ := ih hs
    simpa [State.push, h.push _ _ hp ha] using hasRole_push _ ha
  | next _ h' ih ih' =>
    obtain ⟨h, hp⟩ := ih hs
    obtain ⟨h, hp'⟩ := ih' h
    refine ⟨h, fun role id hi => ?_⟩
    rcases List.mem_append.1 hi with hi | hi
    · exact (h'.grown SortsKept.grown).hasRole (hp role id hi)
    · exact hp' role id hi

theorem sorts_of_suffixes {power : Power} {left : NodeId}
    (h : Suffixes SortsKept power s left id s') (hs : Sorted s.nodes)
    (hl : HasRole s.nodes .operand left) : Sorted s'.nodes ∧ HasRole s'.nodes .operand id := by
  induction h with
  | stop => exact ⟨hs, hl⟩
  | take _ _ hr _ ih =>
    obtain ⟨h, hi⟩ := hr.2 hs (by simpa [Rule.left] using hl)
    exact ih h hi

theorem sorts_of_production {maxDepth : Nat} {rule : Rule}
    (h : Production SortsKept maxDepth rule s id s') : Sorts rule s id s' := by
  intro hs hleft
  cases constructs_of_production h with
  | same hr hl hl' hw =>
    obtain ⟨h, hi⟩ := hr.2 hs (no_left hl)
    exact ⟨h, hi.within hw⟩
  | built shape hp _ _ ha =>
    obtain ⟨h, hp⟩ := sorts_of_laid hp hs
    exact ⟨h.push _ _ hp ha, hasRole_push _ ha⟩
  | pattern hr hl hw =>
    obtain ⟨h, hi⟩ := hr.2 hs (no_left hl)
    exact ⟨h, hi.within hw⟩
  | expression ho hl hw hc =>
    obtain ⟨h, hi⟩ := ho.2 hs (no_left hl)
    exact hc.2 h (by simpa [Rule.left] using hi.within hw)
  | continuation hx => exact sorts_of_suffixes hx hs (hleft _ (by simp [Rule.left]))
  | suffix shape hp hparts _ _ _ ha =>
    obtain ⟨h, hi⟩ := sorts_of_laid hp hs
    refine ⟨h.push .operand _ ?_ ha, hasRole_push _ ha⟩
    intro role child hc
    rw [hparts] at hc
    rcases List.mem_cons.1 hc with hc | hc
    · cases hc
      exact (hp.grown SortsKept.grown).hasRole (hleft _ (by simp [Rule.left]))
    · exact hi role child hc

/-! ## The tree of a module -/

theorem HeaderRead.sorted {header : Option NodeId} (h : HeaderRead s header s')
    (hs : Sorted s.nodes) :
    Sorted s'.nodes ∧ ∀ id ∈ header, HasRole s'.nodes .header id := by
  cases h with
  | none => exact ⟨hs, by simp⟩
  | some hm hp =>
    have hp : Laid SortsKept s (Shape.moduleHeader _).parts _ := (Laid.word hm).next (.path hp)
    obtain ⟨h, hp⟩ := sorts_of_laid hp hs
    refine ⟨h.push .header _ hp rfl, ?_⟩
    simpa [State.push] using hasRole_push _ rfl

theorem Reached.sorted {setup : Setup} (ht : setup.table = .standard) {tokens : List Token}
    {header : Option NodeId} {ids : List NodeId} (h : Reached setup tokens s header ids) :
    Sorted s.nodes ∧ (∀ id ∈ header, HasRole s.nodes .header id) ∧
      ∀ id ∈ ids, HasRole s.nodes .statement id := by
  induction h with
  | start =>
    rw [State.start_nodes]
    exact ⟨.empty, by simp, by simp⟩
  | header h _ =>
    have hs : Sorted (State.start tokens).nodes := by
      rw [State.start_nodes]
      exact .empty
    obtain ⟨h, hi⟩ := h.sorted hs
    exact ⟨h, hi, by simp⟩
  | @statement s _ _ _ s' hr _ h ih =>
    obtain ⟨hs, hh, hi⟩ := ih
    have hk : Kept s s' := by
      have hk := keeps (Rule.form .statement).parse setup s
      rwa [h] at hk
    have hr : Sorts (.form .statement) s _ s' := parse_done_kept ht sorts_of_production trivial h
    obtain ⟨hs, hnew⟩ := hr hs (no_left rfl)
    refine ⟨hs, fun id h => hk.toGrown.hasRole (hh id h), fun id h => ?_⟩
    rcases List.mem_append.1 h with h | h
    · exact hk.toGrown.hasRole (hi id h)
    · rw [List.mem_singleton.1 h]
      exact hnew
  | skip _ _ hn ih =>
    rw [hn]
    exact ih

end Parse

/-- Every tree is well-sorted: the header is one, statements stand at the top level, and in every
node each reference leads to a node that can play the role it is there for. -/
theorem Parsed.ofTokens_sorted (tokens : Tokens) (file : String) (options : Options) :
    let tree := (Parsed.ofTokens tokens file options).tree
    Sorted tree.nodes ∧ (∀ id ∈ tree.header, HasRole tree.nodes .header id) ∧
      ∀ id ∈ tree.statements, HasRole tree.nodes .statement id := by
  rcases Parse.ofTokens_reached tokens file options with h | ⟨s, header, ids, hr, h⟩
  · rw [h]
    exact ⟨.empty, by simp, by simp⟩
  · rw [h]
    exact hr.sorted rfl

end Smaug
