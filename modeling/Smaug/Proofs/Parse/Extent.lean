import Smaug.Proofs.Parse.Layout
import Smaug.Proofs.Token.Boundary

/-! # Where nodes stand

Where tokens are in order, a rule yields a node that reaches from the token it starts with to the
last one it passes, or from the start of the node to its left; and the parts of the construct lie
between these ends, one behind the other.
-/

namespace Smaug

structure Extent (tokens : List Token) (start stop : Nat) : Prop where
  first : ∃ token ∈ tokens, token.kind ≠ .eof ∧ token.span.start = start
  last : ∃ token ∈ tokens, token.kind ≠ .eof ∧ token.span.stop = stop
  lt : start < stop

/-- One extent and then another. -/
theorem Extent.trans {tokens : List Token} {a b c d : Nat} (h : Extent tokens a b) (hl : b ≤ c)
    (h' : Extent tokens c d) : Extent tokens a d where
  first := h.first
  last := h'.last
  lt := by
    have := h.lt
    have := h'.lt
    omega

section
variable (tokens : List Token) (nodes : Array Node)

/-- Parts that lie one behind the other between two offsets; a name is that of a token. -/
inductive Row : Nat → List Part → Nat → Prop
  | nil (h : start ≤ stop) : Row start [] stop
  | name {token : Token} (ht : token ∈ tokens) (hn : token.isName)
      (hl : start ≤ token.span.start) (hs : token.span.start < token.span.stop)
      (hr : Row token.span.stop parts stop) :
      Row start (.name ⟨token.value, token.kind == .builtIn, token.span⟩ :: parts) stop
  | node {i : NodeId} {node : Node} (hn : nodes[i]? = some node) (hl : start ≤ node.span.start)
      (hs : node.span.start < node.span.stop) (hr : Row node.span.stop parts stop) :
      Row start (.node role i :: parts) stop

end

namespace Row

variable {tokens : List Token} {nodes : Array Node} {parts more : List Part} {a b c d : Nat}

theorem le (h : Row tokens nodes a parts b) : a ≤ b := by
  induction h with
  | nil h => exact h
  | name | node => omega

theorem mono {grown : Array Node}
    (hn : ∀ {id : NodeId} {node : Node}, nodes[id]? = some node → grown[id]? = some node)
    (h : Row tokens nodes a parts b) : Row tokens grown a parts b := by
  induction h with
  | nil h => exact .nil h
  | name ht hi hl hs _ ih => exact .name ht hi hl hs ih
  | node hi hl hs _ ih => exact .node (hn hi) hl hs ih

theorem from_le (h : Row tokens nodes b parts c) (hl : a ≤ b) : Row tokens nodes a parts c := by
  cases h with
  | nil h => exact .nil (hl.trans h)
  | name ht hi h hs hr => exact .name ht hi (hl.trans h) hs hr
  | node hi h hs hr => exact .node hi (hl.trans h) hs hr

theorem append (h : Row tokens nodes a parts b) (hl : b ≤ c) (h' : Row tokens nodes c more d) :
    Row tokens nodes a (parts ++ more) d := by
  induction h with
  | nil h => exact h'.from_le (h.trans hl)
  | name ht hi h hs _ ih => exact .name ht hi h hs (ih hl)
  | node hi h hs _ ih => exact .node hi h hs (ih hl)

theorem name_mem {name : Name} (h : Row tokens nodes a parts b) (hm : .name name ∈ parts) :
    ∃ token ∈ tokens, token.isName ∧ name.text = token.value ∧ name.span = token.span ∧
      a ≤ token.span.start ∧ token.span.stop ≤ b := by
  induction h with
  | nil => cases hm
  | @name start parts stop token ht hi hl hs hr ih =>
    rcases List.mem_cons.1 hm with hm | hm
    · cases hm
      exact ⟨token, ht, hi, rfl, rfl, hl, hr.le⟩
    · obtain ⟨other, ho, hi, hv, hspan, hl', hb⟩ := ih hm
      exact ⟨other, ho, hi, hv, hspan, by omega, hb⟩
  | node hi hl hs hr ih =>
    rcases List.mem_cons.1 hm with hm | hm
    · cases hm
    · obtain ⟨other, ho, hi, hv, hspan, hl', hb⟩ := ih hm
      exact ⟨other, ho, hi, hv, hspan, by omega, hb⟩

theorem reference_mem {role : Role} {id : NodeId} (h : Row tokens nodes a parts b)
    (hm : (role, id) ∈ parts.filterMap Part.reference?) :
    ∃ node, nodes[id]? = some node ∧ a ≤ node.span.start ∧ node.span.start < node.span.stop ∧
      node.span.stop ≤ b := by
  induction h with
  | nil => cases hm
  | name ht hi hl hs hr ih =>
    obtain ⟨node, hn, hl', hlt, hb⟩ := ih (by simpa [Part.reference?] using hm)
    exact ⟨node, hn, by omega, hlt, hb⟩
  | @node start parts stop role' id' node hi hl hs hr ih =>
    simp only [Part.reference?, List.filterMap_cons, List.mem_cons, Prod.mk.injEq] at hm
    rcases hm with ⟨-, rfl⟩ | hm
    · exact ⟨node, hi, hl, hs, hr.le⟩
    · obtain ⟨node, hn, hl', hlt, hb⟩ := ih hm
      exact ⟨node, hn, by omega, hlt, hb⟩

/-- Of two nodes in a row, the first ends before the second starts. -/
theorem pairwise (h : Row tokens nodes a parts b) :
    (parts.filterMap Part.reference?).Pairwise fun x y => ∀ node node' : Node,
      nodes[x.2]? = some node → nodes[y.2]? = some node' → node.span.stop ≤ node'.span.start := by
  induction h with
  | nil => exact .nil
  | name _ _ _ _ _ ih =>
    rw [List.filterMap_cons_none rfl]
    exact ih
  | node hi _ _ hr ih =>
    simp only [Part.reference?, List.filterMap_cons]
    refine .cons (fun y hy node node' hn hn' => ?_) ih
    obtain ⟨other, ho, hl, -, -⟩ := hr.reference_mem hy
    cases hi.symm.trans hn
    cases ho.symm.trans hn'
    exact hl

end Row

/-- A node reaches from a token to a token, over its parts. -/
structure Node.Placed (tokens : List Token) (nodes : Array Node) (node : Node) : Prop where
  extent : Extent tokens node.span.start node.span.stop
  row : Row tokens nodes node.span.start node.shape.parts node.span.stop

theorem Span.merge_of_le {a b : Span} (h : a.start ≤ b.start) (h' : a.stop ≤ b.stop) :
    a.merge b = ⟨a.start, b.stop⟩ := by
  rw [merge, Nat.min_eq_left h, Nat.max_eq_right h']

namespace Parse

open Grammar

/-- A parse among some tokens: they stand in order, and every node has its place. -/
structure State.Among (tokens : List Token) (s : State) : Prop where
  order : InOrder s.lastStop s.tokens
  mem : s.tokens ⊆ tokens
  placed : ∀ (id : NodeId) (node : Node), s.nodes[id]? = some node → node.Placed tokens s.nodes

def State.Reaches (s : State) (id : NodeId) (start : Nat) : Prop :=
  ∃ node, s.nodes[id]? = some node ∧ node.span = ⟨start, s.lastStop⟩

/-- Where the node of a rule starts: with the current token, or with the node to the left. -/
def Begins (rule : Rule) (s : State) (start : Nat) : Prop :=
  (rule.left = [] → start = s.current.span.start) ∧ ∀ left ∈ rule.left, s.Reaches left start

theorem begins_current {rule : Rule} {s : State} (hl : rule.left = []) :
    Begins rule s s.current.span.start := by
  simp [Begins, hl]

theorem begins_left {rule : Rule} {s : State} {left : NodeId} {start : Nat}
    (hl : rule.left = [left]) (h : s.Reaches left start) : Begins rule s start := by
  simpa [Begins, hl] using h

variable {tokens : List Token} {s s' : State} {id : NodeId} {start : Nat}

namespace State.Among

theorem le (h : s.Among tokens) : s.lastStop ≤ s.current.span.start :=
  h.order.le_of_mem (List.mem_cons_self ..)

theorem advance (h : s.Among tokens) (ht : s.hasTokens) :
    s.advance.Among tokens ∧ s.advance.lastStop = s.current.span.stop ∧
      Extent tokens s.current.span.start s.current.span.stop := by
  have hk : s.current.kind ≠ .eof := by simpa [State.hasTokens, State.kind] using ht
  have hm : s.current ∈ tokens := h.mem (List.mem_cons_self ..)
  rcases h.order.cons_cases with ⟨he, -⟩ | ⟨-, hlt, ho⟩
  · exact absurd he hk
  have hext : Extent tokens s.current.span.start s.current.span.stop :=
    ⟨⟨_, hm, hk, rfl⟩, ⟨_, hm, hk, rfl⟩, hlt⟩
  rcases s.advance_cases with ha | ⟨-, htokens, -, -, hstop⟩
  · -- there is a token after the current one, so the parse cannot stay where it is
    cases hahead : s.ahead with
    | nil =>
      rw [hahead] at ho
      cases ho
    | cons next ahead =>
      rw [State.advance, hahead] at ha
      simp only [ht, if_true] at ha
      simpa [hahead] using congrArg (fun s => s.ahead.length) ha
  · have htail : s.ahead = s.advance.tokens := (List.cons_eq_cons.1 htokens).2
    refine ⟨⟨?_, fun t ht => h.mem ?_, ?_⟩, hstop, hext⟩
    · rwa [hstop, ← htail]
    · rw [htokens]
      exact List.mem_cons_of_mem _ ht
    · rw [s.advance_nodes]
      exact h.placed

theorem push {node : Node} (h : s.Among tokens) (hn : node.Placed tokens s.nodes) :
    (s.push node).Among tokens := by
  refine ⟨h.order, h.mem, fun id other ho => ?_⟩
  have hgrow {other : Node} (h : other.Placed tokens s.nodes) :
      other.Placed tokens (s.push node).nodes :=
    ⟨h.extent, h.row.mono getElem?_push_of_some⟩
  rw [State.push, Array.getElem?_push] at ho
  split at ho
  · cases ho
    exact hgrow hn
  · exact hgrow (h.placed id other ho)

end State.Among

def Extents (tokens : List Token) : Meaning := fun rule s id s' =>
  ∀ start, s.Among tokens → Begins rule s start → s'.Among tokens ∧ s'.Reaches id start

abbrev ExtentsKept (tokens : List Token) : Meaning := fun rule s id s' =>
  Kept s s' ∧ Extents tokens rule s id s'

theorem State.Among.extent (h : s.Among tokens) (hr : s.Reaches id start) :
    Extent tokens start s.lastStop := by
  obtain ⟨⟨shape, span⟩, hn, rfl⟩ := hr
  exact (h.placed id _ hn).extent

/-- A construct takes its place where its parts are in a row. -/
theorem State.Among.construct (h : s.Among tokens) (shape : Shape)
    (he : Extent tokens start s.lastStop) (hr : Row tokens s.nodes start shape.parts s.lastStop) :
    (s.push ⟨shape, ⟨start, s.lastStop⟩⟩).Among tokens ∧
      (s.push ⟨shape, ⟨start, s.lastStop⟩⟩).Reaches s.nodes.size start :=
  ⟨h.push ⟨he, hr⟩, _, Array.getElem?_push_size, rfl⟩

theorem State.spanFrom_eq (h : start < s.lastStop) : s.spanFrom start = ⟨start, s.lastStop⟩ := by
  rw [State.spanFrom, Nat.max_eq_left (Nat.le_of_lt h)]

/-- Parts are read in a row, from the current token to the last one passed. -/
theorem extents_of_laid {parts : List Part} (h : Laid (ExtentsKept tokens) s parts s')
    (hs : s.Among tokens) :
    s'.Among tokens ∧ Extent tokens s.current.span.start s'.lastStop ∧
      Row tokens s'.nodes s.current.span.start parts s'.lastStop := by
  have row {s s' : State} {id : NodeId} {role : Role} (hs : s'.Among tokens)
      (hr : s'.Reaches id s.current.span.start) :
      s'.Among tokens ∧ Extent tokens s.current.span.start s'.lastStop ∧
        Row tokens s'.nodes s.current.span.start [.node role id] s'.lastStop := by
    have he := hs.extent hr
    obtain ⟨⟨shape, span⟩, hn, rfl⟩ := hr
    exact ⟨hs, he, .node hn (Nat.le_refl _) he.lt (.nil (Nat.le_refl _))⟩
  induction h with
  | token ht =>
    obtain ⟨h, hstop, he⟩ := hs.advance ht
    rw [hstop]
    exact ⟨h, he, .nil (Nat.le_of_lt he.lt)⟩
  | name hn =>
    obtain ⟨h, hstop, he⟩ := hs.advance (State.hasTokens_of_isName hn)
    rw [hstop]
    refine ⟨h, he, .name (hs.mem (List.mem_cons_self ..)) hn (Nat.le_refl _) he.lt ?_⟩
    exact .nil (Nat.le_refl _)
  | rule hr hq _ =>
    obtain ⟨h, hi⟩ := hr.2 _ hs (begins_current (Role.left_of_reads hq))
    exact row h hi
  | taken ho hc =>
    obtain ⟨h, hl⟩ := ho.2 _ hs (begins_current rfl)
    obtain ⟨h, hi⟩ := hc.2 _ h (begins_left rfl hl)
    exact row h hi
  | built role shape _ _ _ ih =>
    obtain ⟨h, he, hr⟩ := ih hs
    rw [State.spanFrom_eq he.lt]
    obtain ⟨h, hi⟩ := h.construct shape he hr
    exact row h hi
  | next _ h' ih ih' =>
    obtain ⟨h, he, hr⟩ := ih hs
    obtain ⟨h'', he', hr'⟩ := ih' h
    refine ⟨h'', he.trans h.le he', ?_⟩
    exact (hr.mono (h'.grown fun h => h.1.toGrown).getElem?).append h.le hr'

theorem span_of_lastRead {span : Span} (h : LastRead (ExtentsKept tokens) s s' span)
    (hs : s.Among tokens) :
    span = ⟨s.current.span.start, s'.lastStop⟩ ∧ s.current.span.start < s'.lastStop := by
  cases h with
  | token ht =>
    obtain ⟨-, hstop, he⟩ := hs.advance ht
    rw [hstop]
    exact ⟨rfl, he.lt⟩
  | rule hr hl hn =>
    obtain ⟨h, hi⟩ := hr.2 _ hs (begins_current hl)
    have hlt := (h.extent hi).lt
    obtain ⟨node, hn', hspan⟩ := hi
    cases hn.symm.trans hn'
    exact ⟨hspan, hlt⟩

theorem span_of_spanRead {span : Span} (h : SpanRead (ExtentsKept tokens) s s' span)
    (hs : s.Among tokens) (he : Extent tokens s.current.span.start s'.lastStop) :
    span = ⟨s.current.span.start, s'.lastStop⟩ := by
  cases h with
  | passed => exact State.spanFrom_eq he.lt
  | copied h => exact (span_of_lastRead h hs).1
  | merged ht h =>
    obtain ⟨hs', hstop, he⟩ := hs.advance ht
    obtain ⟨rfl, hlt⟩ := span_of_lastRead h hs'
    have hle := hs'.le
    have hlt' := he.lt
    rw [Span.merge_of_le] <;> simp only <;> omega

theorem extents_of_suffixes {power : Power} {left : NodeId}
    (h : Suffixes (ExtentsKept tokens) power s left id s') (hs : s.Among tokens)
    (hl : s.Reaches left start) : s'.Among tokens ∧ s'.Reaches id start := by
  induction h with
  | stop => exact ⟨hs, hl⟩
  | take _ _ hr _ ih =>
    obtain ⟨h, hi⟩ := hr.2 _ hs (begins_left rfl hl)
    exact ih h hi

/-- What stands right of a node takes it into a construct that starts where the node does. -/
theorem extents_of_suffix {s₁ : State} {shape : Shape} {parts : List Part} {left : NodeId}
    {node : Node} {span : Span} (hp : Laid (ExtentsKept tokens) s parts s')
    (hparts : shape.parts = .node .operand left :: parts) (hn : s'.nodes[left]? = some node)
    (hbegin : s₁ = s ∨ s.hasTokens ∧ s₁ = s.advance)
    (hlast : LastRead (ExtentsKept tokens) s₁ s' span) (hs : s.Among tokens)
    (hl : s.Reaches left start) :
    (s'.push ⟨shape, node.span.merge span⟩).Among tokens ∧
      (s'.push ⟨shape, node.span.merge span⟩).Reaches s'.nodes.size start := by
  obtain ⟨h, he, hr⟩ := extents_of_laid hp hs
  have hext := hs.extent hl
  have hle := hs.le
  obtain ⟨leftNode, hleft, hspan⟩ := hl
  cases hn.symm.trans ((hp.grown fun h => h.1.toGrown).getElem? hleft)
  obtain ⟨hs₁, hle₁⟩ : s₁.Among tokens ∧ s.current.span.start ≤ s₁.current.span.start := by
    rcases hbegin with rfl | ⟨ht, rfl⟩
    · exact ⟨hs, Nat.le_refl _⟩
    · obtain ⟨h, hstop, he⟩ := hs.advance ht
      have := h.le
      have := he.lt
      exact ⟨h, by omega⟩
  obtain ⟨rfl, hlt⟩ := span_of_lastRead hlast hs₁
  have hlt' := hext.lt
  have hmerge : node.span.merge ⟨s₁.current.span.start, s'.lastStop⟩ = ⟨start, s'.lastStop⟩ := by
    rw [hspan, Span.merge_of_le] <;> simp only <;> omega
  rw [hmerge]
  refine h.construct shape (hext.trans hle he) ?_
  rw [hparts]
  refine .node hn ?_ ?_ (hr.from_le ?_) <;> simp only [hspan] <;> omega

theorem extents_of_production {maxDepth : Nat} {rule : Rule}
    (h : Production (ExtentsKept tokens) maxDepth rule s id s') : Extents tokens rule s id s' := by
  intro start hs hb
  cases constructs_of_production h with
  | same hr hl hl' =>
    rw [hb.1 hl']
    exact hr.2 _ hs (begins_current hl)
  | built shape hp hspan hl =>
    obtain ⟨h, he, hr⟩ := extents_of_laid hp hs
    rw [hb.1 hl, span_of_spanRead hspan hs he]
    exact h.construct shape he hr
  | pattern hr hl =>
    have hs : s.deeper.Among tokens := ⟨hs.order, hs.mem, hs.placed⟩
    obtain ⟨h, hi⟩ := hr.2 _ hs (begins_current hl)
    rw [hb.1 rfl]
    exact ⟨⟨h.order, h.mem, h.placed⟩, hi⟩
  | expression ho hl _ hc =>
    have hs : s.deeper.Among tokens := ⟨hs.order, hs.mem, hs.placed⟩
    obtain ⟨h, hi⟩ := ho.2 _ hs (begins_current hl)
    obtain ⟨h, hi⟩ := hc.2 _ h (begins_left rfl hi)
    rw [hb.1 rfl]
    exact ⟨⟨h.order, h.mem, h.placed⟩, hi⟩
  | continuation hx => exact extents_of_suffixes hx hs (hb.2 _ (List.mem_singleton.2 rfl))
  | suffix shape hp hparts hn hbegin hlast =>
    exact extents_of_suffix hp hparts hn hbegin hlast hs (hb.2 _ (List.mem_singleton.2 rfl))

/-! ## The tree of a module -/

/-- Passing over tokens leaves every node in its place. -/
theorem State.Among.skip (h : s.Among tokens) (hk : Kept s s') (hn : s'.nodes = s.nodes) :
    s'.Among tokens := by
  obtain ⟨passed, ht, -, hstop⟩ := hk.tokens
  refine ⟨?_, fun t hm => h.mem ?_, hn ▸ h.placed⟩
  · rw [hstop]
    exact (ht ▸ h.order).drop (List.cons_ne_nil _ _)
  · rw [ht]
    exact List.mem_append_right _ hm

theorem HeaderRead.among {header : Option NodeId} (h : HeaderRead s header s')
    (hs : s.Among tokens) : s'.Among tokens := by
  cases h with
  | none => exact hs
  | some hm hp =>
    have hp : Laid (ExtentsKept tokens) s (Shape.moduleHeader _).parts _ :=
      (Laid.word hm).next (.path hp)
    obtain ⟨h, he, hr⟩ := extents_of_laid hp hs
    rw [State.spanFrom_eq he.lt]
    exact (h.construct _ he hr).1

theorem Reached.among {setup : Setup} (ht : setup.table = .standard) (ho : InOrder 0 tokens)
    {header : Option NodeId} {ids : List NodeId} (h : Reached setup tokens s header ids) :
    s.Among tokens := by
  have hstart : (State.start tokens).Among tokens := by
    refine ⟨?_, ?_, by simp [State.start_nodes]⟩
    · rwa [State.start_lastStop, State.start_tokens, State.ended_of_inOrder ho]
    · rw [State.start_tokens, State.ended_of_inOrder ho]
      exact List.Subset.refl _
  induction h with
  | start => exact hstart
  | header h _ => exact h.among hstart
  | statement _ _ h ih =>
    have hr : Extents tokens (.form .statement) _ _ _ :=
      parse_done_kept ht extents_of_production trivial h
    exact (hr _ ih (begins_current rfl)).1
  | skip _ hk hn ih => exact ih.skip hk hn

end Parse

/-- A node stands exactly where its text does: from the start of a token to the end of one, with
trivia at neither end, around its children and its names.  Children lie one behind the other, and
the text of a name is the name. -/
structure Tree.Covers (tree : Tree) (source : String) (tokens : List Token) (node : Node) :
    Prop where
  extent : Extent tokens node.span.start node.span.stop
  text : ∃ text, node.span.text? source = some text
  trimmed : ∀ trivia ∈ tree.trivia,
    ¬(trivia.span.start ≤ node.span.start ∧ node.span.start < trivia.span.stop) ∧
      ¬(trivia.span.start < node.span.stop ∧ node.span.stop ≤ trivia.span.stop)
  children : ∀ child ∈ node.children, ∃ inner, tree.get? child = some inner ∧
    node.span.contains inner.span
  apart : node.children.Pairwise fun a b => ∀ x y,
    tree.get? a = some x → tree.get? b = some y → x.span.stop ≤ y.span.start
  names : ∀ name ∈ node.shape.names,
    node.span.contains name.span ∧ name.span.text? source = some name.text

/-- What has its place among the tokens of a source stands where its text does. -/
theorem Node.Placed.covers {source file : String} {options : Options} {tokens : Tokens}
    (ht : Tokens.ofSource source file options = .ok tokens) {nodes : Array Node} {node : Node}
    (h : node.Placed tokens.tokens nodes) (header : Option NodeId) (statements : List NodeId) :
    Tree.Covers { file, nodes, header, statements, trivia := tokens.trivia } source tokens.tokens
      node where
  extent := h.extent
  text := by
    obtain ⟨first, hf, hk, hstart⟩ := h.extent.first
    obtain ⟨last, hl, hk', hstop⟩ := h.extent.last
    refine Span.text?_of_isBoundary (Nat.le_of_lt h.extent.lt) ?_ ?_
    · exact hstart ▸ (Tokens.ofSource_isBoundary ht hf hk).1
    · exact hstop ▸ (Tokens.ofSource_isBoundary ht hl hk').2
  trimmed := by
    intro trivia hv
    obtain ⟨first, hf, hk, hstart⟩ := h.extent.first
    obtain ⟨last, hl, hk', hstop⟩ := h.extent.last
    have ho := Tokens.ofSource_inOrder ht
    have hlt := ho.start_lt_stop hf hk
    have hlt' := ho.start_lt_stop hl hk'
    have hfirst := Tokens.ofSource_apart ht hf hk hv
    have hlast := Tokens.ofSource_apart ht hl hk' hv
    omega
  children := by
    intro child hc
    rw [Node.children, ← Shape.references_children] at hc
    obtain ⟨⟨role, child⟩, hm, rfl⟩ := List.mem_map.1 hc
    obtain ⟨inner, hn, hstart, -, hstop⟩ := h.row.reference_mem hm
    exact ⟨inner, hn, by simp [Span.contains, hstart, hstop]⟩
  apart := by
    rw [Node.children, ← Shape.references_children, List.pairwise_map]
    exact h.row.pairwise
  names := by
    intro name hm
    obtain ⟨part, hp, hname⟩ := List.mem_filterMap.1 hm
    cases part with
    | node => cases hname
    | name =>
      cases hname
      obtain ⟨token, htoken, hn, hv, hspan, hstart, hstop⟩ := h.row.name_mem hp
      have hk : token.kind = .identifier ∨ token.kind = .builtIn := by
        simpa [Token.isName] using hn
      rw [hspan, hv]
      refine ⟨by simp [Span.contains, hstart, hstop], Tokens.ofSource_value ht htoken ?_ ?_⟩ <;>
        rcases hk with hk | hk <;> simp [hk]

/-- Every node of the tree of a source stands exactly where its text does. -/
theorem Parsed.ofSource_covers {source file : String} {options : Options} {tokens : Tokens}
    (ht : Tokens.ofSource source file options = .ok tokens) :
    let tree := (Parsed.ofSource source file options).tree
    ∀ id node, tree.get? id = some node → tree.Covers source tokens.tokens node := by
  have ho := Tokens.ofSource_inOrder ht
  rw [ofSource_eq_ofTokens ht]
  intro tree id node hn
  rcases Parse.ofTokens_reached tokens file options with h | ⟨s, header, ids, hr, h⟩
  · simp [tree, h, Tree.get?] at hn
  · have htree : tree = _ := h
    rw [htree] at hn ⊢
    exact ((hr.among rfl ho).placed id node hn).covers ht header ids

theorem Parsed.ofSource_covers_call :
    let source := "do /* f */ f ( a , ) //"
    let tokens : Tokens :=
      { tokens :=
          [⟨.doWord, "do", ⟨0, 2⟩⟩, ⟨.identifier, "f", ⟨11, 12⟩⟩, ⟨.openParen, "(", ⟨13, 14⟩⟩,
            ⟨.identifier, "a", ⟨15, 16⟩⟩, ⟨.comma, ",", ⟨17, 18⟩⟩, ⟨.closeParen, ")", ⟨19, 20⟩⟩,
            .endAt (.emptyAt 23)]
        trivia := #[⟨.whitespace, ⟨2, 3⟩⟩, ⟨.blockComment, ⟨3, 10⟩⟩, ⟨.whitespace, ⟨10, 11⟩⟩,
          ⟨.whitespace, ⟨12, 13⟩⟩, ⟨.whitespace, ⟨14, 15⟩⟩, ⟨.whitespace, ⟨16, 17⟩⟩,
          ⟨.whitespace, ⟨18, 19⟩⟩, ⟨.whitespace, ⟨20, 21⟩⟩, ⟨.lineComment, ⟨21, 23⟩⟩] }
    let tree := (Parsed.ofSource source "call.sm" {}).tree
    Tokens.ofSource source "call.sm" {} = .ok tokens ∧
      tree.get? 3 = some ⟨.call 0 2, ⟨11, 20⟩⟩ ∧
        tree.Covers source tokens.tokens ⟨.call 0 2, ⟨11, 20⟩⟩ := by
  intro source tokens tree
  have ht : Tokens.ofSource source "call.sm" {} = .ok tokens := by decide +kernel
  have hn : tree.get? 3 = some ⟨.call 0 2, ⟨11, 20⟩⟩ := by decide +kernel
  exact ⟨ht, hn, Parsed.ofSource_covers ht 3 _ hn⟩

end Smaug
