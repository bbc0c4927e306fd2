import Mathlib
import Smaug.Proofs.Parse.Embed.Module

/-! # Operands as elements of a list

What can be returned can be listed: tokens that `return` takes by themselves are an element between
brackets, with the same value.  Two kinds of operands go on beyond their tokens there.  A statement
list after a colon goes on up to a closing brace or the end of the input, and finds a comma or a
bracket; and a `yield` takes a comma for its own where another attribute or a list comes next.
-/

namespace Smaug

/-! ## Operands -/

/-- Tokens behind a `return`, and what they come to as a module of their own. -/
structure Item where
  first : Token
  tokens : List Token
  stop : Token
  parsed : Parsed
  value : NodeId

namespace Item

structure IsReturned (item : Item) (maxDepth : Nat) : Prop where
  first : item.first.kind = .returnWord
  inner : ∀ token ∈ item.tokens, token.kind ≠ .eof
  stop : item.stop.kind = .eof
  parsed : ∃ trivia file options, options.maxDepth = maxDepth ∧
    item.parsed = Parsed.ofTokens ⟨item.first :: (item.tokens ++ [item.stop]), trivia⟩
      file options
  errors : item.parsed.errors = []
  statement : ∃ id span, item.parsed.tree.statements = [id] ∧
    item.parsed.tree.get? id = some ⟨.returnStatement item.value, span⟩

/-- The operand does not end with a statement list after a colon. -/
def IsClosed (item : Item) : Prop :=
  ¬EndsIn item.parsed.tree.nodes (fun shape => shape.isColonList) item.value

/-- The operand does not end with a `yield` for which the next operand starts a list or another
attribute. -/
def Precedes (item next : Item) : Prop :=
  (∃ token ∈ next.tokens.head?, token.kind = .yieldWord ∨ token.kind = .openCurly) →
    ¬EndsIn item.parsed.tree.nodes (YieldsType item.parsed.tree.nodes) item.value

def IsHeld (nodes : Array Node) (value : NodeId) (item : Item) : Prop :=
  ∃ number count, count ≤ item.parsed.tree.nodes.size ∧ item.value < count ∧
    value = number item.value ∧ Holding nodes item.parsed.tree.nodes number count

theorem IsHeld.mono {nodes nodes' : Array Node} {value : NodeId} {item : Item}
    (h : item.IsHeld nodes value)
    (hn : ∀ {id : NodeId} {node : Node}, nodes[id]? = some node → nodes'[id]? = some node) :
    item.IsHeld nodes' value := by
  obtain ⟨number, count, hcount, hlt, hvalue, hheld⟩ := h
  exact ⟨number, count, hcount, hlt, hvalue, hheld.mono hn⟩

theorem IsHeld.copy {nodes : Array Node} {value : NodeId} {item : Item} {maxDepth : Nat}
    (h : item.IsHeld nodes value) (hr : item.IsReturned maxDepth) :
    Copy nodes item.parsed.tree.nodes value item.value := by
  obtain ⟨number, count, hcount, hlt, rfl, hheld⟩ := h
  obtain ⟨trivia, file, options, -, hparsed⟩ := hr.parsed
  refine hheld.copy hcount ?_ hlt
  rw [hparsed]
  exact (Parsed.ofTokens_forest _ file options).backward

def list (items : List Item) : List Token :=
  [⟨.returnWord, "return", default⟩, ⟨.openBracket, "[", default⟩] ++
    List.intercalate [⟨.comma, ",", default⟩] (items.map fun item => item.tokens.map Token.bare) ++
    [⟨.closeBracket, "]", default⟩, ⟨.eof, "EOF", default⟩]

/-- A module without errors is one `return` of an array that holds a copy of each item. -/
structure AreListed (items : List Item) (whole : Parsed) : Prop where
  errors : whole.errors = []
  header : whole.tree.header = none
  list : ∃ id value values span span', whole.tree.statements = [id] ∧
    whole.tree.get? id = some ⟨.returnStatement value, span⟩ ∧
    whole.tree.get? value = some ⟨.array values, span'⟩ ∧
    List.Forall₂ (fun value item => Copy whole.tree.nodes item.parsed.tree.nodes value item.value)
      values items

def read (tokens : List Token) (value : NodeId) (maxDepth : Nat) : Item where
  first := ⟨.returnWord, "return", default⟩
  tokens
  stop := ⟨.eof, "EOF", default⟩
  parsed := Parsed.ofTokens
    ⟨⟨.returnWord, "return", default⟩ :: (tokens ++ [⟨.eof, "EOF", default⟩]), #[]⟩ "item.sm"
    { maxDepth }
  value

theorem isReturned_read {tokens : List Token} {value : NodeId} {maxDepth : Nat} (id : NodeId)
    (ht : ∀ token ∈ tokens, token.kind ≠ .eof) (he : (read tokens value maxDepth).parsed.errors = [])
    (hs : (read tokens value maxDepth).parsed.tree.statements = [id])
    (hn : (read tokens value maxDepth).parsed.tree.get? id = some ⟨.returnStatement value, default⟩) :
    (read tokens value maxDepth).IsReturned maxDepth :=
  ⟨rfl, ht, rfl, ⟨#[], "item.sm", { maxDepth }, rfl, rfl⟩, he, id, default, hs, hn⟩

end Item

namespace Parse

open Grammar

/-! ## Expressions -/

def StartsExpression : Meaning := fun rule s _ _ =>
  ∀ power, rule = .expression power →
    (Table.operands s.kind).isSome ∨ (Table.statements s.kind).isSome

theorem expression_starts {setup : Setup} (ht : setup.table = .standard) {n : Nat} {power : Power}
    {s s' : State} {id : NodeId}
    (h : Rule.runWith n (.expression power) setup s = .done id s') :
    (Table.operands s.kind).isSome ∨ (Table.statements s.kind).isSome := by
  have hp {rule : Rule} {s s' : State} {id : NodeId}
      (h : Production StartsExpression setup.maxDepth rule s id s') :
      StartsExpression rule s id s' := by
    rintro power rfl
    cases h with
    | expression _ ho _ =>
      cases ho with
      | form hf => exact .inl (Option.isSome_of_mem hf)
      | statement _ hs => exact .inr hs
  have hs : StartsExpression (.expression power) s id s' := runWith_done ht hp trivial h
  exact hs power rfl

section
variable {setup : Setup} {s s' : State}

/-- Behind what closes nothing goes on. -/
theorem continuation_closing (ht : setup.table = .standard) (hs : s.kind.endsConstruct) (n : Nat)
    (left : NodeId) (power : Power) :
    Rule.runWith (n + 1) (.continuation left power) setup s = .done left s := by
  have hnone : setup.table.suffix s.kind = none := ht ▸ Table.suffixes_of_closing hs
  exact continuation_loose (Rule.runWith n) (by simp [hnone]) left

/-- A `return` and its value. -/
theorem returnStatement_eq (ht : setup.table = .standard) (hk : s.kind = .returnWord) (n : Nat) :
    Rule.runWith (n + 2) (.form .statement) setup s = returnStatement (Rule.runWith n) setup s := by
  have hf : setup.table.statement s.kind = some .returnStatement := by rw [ht, hk]; rfl
  change statement (Rule.runWith (n + 1)) setup s = _
  simp only [statement, Bind.bind, Parse.bind, given, look, hf]
  rfl

/-- An expression that is a list in brackets. -/
theorem array_yields {P : List NodeId → State → Prop} (ht : setup.table = .standard)
    (hk : s.kind = .openBracket) (hd : s.depth < setup.maxDepth) {n : Nat}
    (h : (delimited .closeBracket (value (Rule.runWith (n + 1))) setup s.deeper.advance).Yields
      fun ids s' => s'.kind.endsConstruct ∧ P ids s') :
    (Rule.runWith (n + 3) (.expression .lowest) setup s).Yields fun id s' =>
      ∃ ids s₁ span, P ids s₁ ∧ id = s₁.nodes.size ∧ s' = (s₁.push ⟨.array ids, span⟩).leave := by
  have hf : setup.table.operand s.deeper.kind = some .array := by
    rw [ht, show s.deeper.kind = _ from hk]
    rfl
  have hoperand : operand (Rule.runWith (n + 2)) setup s.deeper =
      array (Rule.runWith (n + 1)) setup s.deeper := by
    simp only [operand, Bind.bind, Parse.bind, given, look, hf]
    rfl
  have hopen : expect .openBracket setup s.deeper = .done s.deeper.current s.deeper.advance :=
    expect_done.2 ⟨hk, rfl, rfl⟩
  refine nested_yields hd (bind_yields (P := fun id s' => ∃ ids s₁ span, s₁.kind.endsConstruct ∧
    P ids s₁ ∧ id = s₁.nodes.size ∧ s' = s₁.push ⟨.array ids, span⟩) ?_ ?_)
  · rw [hoperand]
    refine bind_yields (P := fun _ s' => s' = s.deeper.advance) (hopen ▸ .done rfl) ?_
    rintro _ _ rfl
    refine bind_yields (inside_yields _ _ _ h) ?_
    rintro ids s₁ ⟨hs, hp⟩
    exact .done ⟨ids, s₁, _, hs, hp, rfl, rfl⟩
  · rintro _ _ ⟨ids, s₁, span, hs, hp, rfl, rfl⟩
    have hend := continuation_closing ht (s := s₁.push ⟨.array ids, span⟩) hs (n + 1)
      s₁.nodes.size .lowest
    exact hend ▸ .done ⟨ids, s₁, span, hp, rfl, rfl⟩

end

/-! ## One item -/

/-- A module that does not start with the word `module` has no header. -/
theorem header_eq_none {tokens : Tokens} {file : String} {options : Options}
    (h : (State.start tokens.tokens).current.isWord "module" = false) :
    (Parsed.ofTokens tokens file options).tree.header = none := by
  simp only [Parsed.ofTokens, header_none h, Parsed.ofProgress]
  split <;> rfl

structure ValueRead (item : Item) (setup : Setup) (n : Nat) (c c' : State) : Prop where
  table : setup.table = .standard
  tokens : c.tokens = item.tokens ++ [item.stop]
  nodes : c.nodes = #[]
  depth : c.depth = 0
  done : Rule.runWith n (.expression .lowest) setup c = .done item.value c'
  ended : c'.kind = .eof
  tree : ∃ node, item.parsed.tree.nodes = c'.nodes.push node
  value : item.value < c'.nodes.size

theorem returnStatement_done_value {setup : Setup} {s s' : State} {id : NodeId}
    (ht : setup.table = .standard) (hk : s.kind = .returnWord)
    (h : (Rule.form .statement).parse setup s = .done id s') :
    ∃ n value s₁ span, Rule.runWith n (.expression .lowest) setup s.advance = .done value s₁ ∧
      id = s₁.nodes.size ∧ s' = s₁.push ⟨.returnStatement value, span⟩ := by
  have hfuel : Rule.fuel setup s = Rule.fuel setup s - 2 + 2 := by
    unfold Rule.fuel
    omega
  rw [Rule.parse, hfuel, returnStatement_eq ht hk] at h
  obtain ⟨token, s₂, ha, h⟩ := bind_done.1 h
  obtain ⟨rfl, rfl⟩ := advance_done.1 ha
  obtain ⟨value, s₁, hv, h⟩ := bind_done.1 h
  obtain ⟨rfl, rfl⟩ := pushFrom_done.1 h
  exact ⟨_, value, s₁, _, hv, rfl, rfl⟩

theorem exists_valueRead {item : Item} {maxDepth : Nat} (h : item.IsReturned maxDepth) :
    ∃ setup n c c', setup.maxDepth = maxDepth ∧ ValueRead item setup n c c' := by
  obtain ⟨trivia, file, options, hdepth, hparsed⟩ := h.parsed
  obtain ⟨id, span, hid, hnode⟩ := h.statement
  have herrors := h.errors
  have hforest := Parsed.ofTokens_forest
    ⟨item.first :: (item.tokens ++ [item.stop]), trivia⟩ file options
  rw [hparsed] at herrors hid hnode
  let start := State.start (item.first :: (item.tokens ++ [item.stop]))
  have htokens : start.tokens = item.first :: (item.tokens ++ [item.stop]) := by
    have := State.start_tokens_of_eof h.stop (item.first :: item.tokens)
    exact this
  obtain ⟨hcurrent, hahead⟩ := List.cons_eq_cons.1 (show start.current :: start.ahead = _ from htokens)
  have hk : start.kind = .returnWord := by rw [State.kind, hcurrent, h.first]
  have hm : start.current.isWord "module" = false := by simp [Token.isWord, hcurrent, h.first]
  obtain ⟨c', hd, hc', hnodes⟩ := single_of_ofTokens herrors (header_eq_none hm) hid
  obtain ⟨n, value, c₁, span', hv, rfl, rfl⟩ := returnStatement_done_value rfl hk hd
  have hpushed : (c₁.nodes.push ⟨.returnStatement value, span'⟩)[c₁.nodes.size]? =
      some ⟨.returnStatement item.value, span⟩ := by
    rw [← hnode, Tree.get?, hnodes]
    rfl
  rw [Array.getElem?_push_size] at hpushed
  obtain ⟨rfl, -⟩ : value = item.value ∧ _ := by simpa using hpushed
  have hlt : item.value < c₁.nodes.size :=
    hforest.backward _ _ hnode item.value List.mem_cons_self
  obtain ⟨htokens', hdepth'⟩ := State.advance_of_ahead (State.hasTokens_of_kind hk (by decide))
    (by simp [hahead])
  refine ⟨_, n, start.advance, c₁, hdepth, rfl, htokens'.trans hahead, ?_, ?_, hv, hc',
    ⟨⟨.returnStatement item.value, span'⟩, ?_⟩, hlt⟩
  · rw [State.advance_nodes, State.start_nodes]
  · rw [hdepth', State.start_depth]
  · rw [hparsed, hnodes]
    rfl

/-- An operand is not empty, and neither a colon nor a bracket closes it before it starts. -/
theorem exists_first {item : Item} {maxDepth : Nat} (h : item.IsReturned maxDepth) :
    ∃ first more, item.tokens = first :: more ∧ first.kind ≠ .closeBracket ∧ first.kind ≠ .colon := by
  obtain ⟨setup, n, c, c', -, hv⟩ := exists_valueRead h
  have hstarts := expression_starts hv.table hv.done
  cases htokens : item.tokens with
  | nil =>
    have hk : c.kind = .eof := by
      rw [State.kind, (List.cons_eq_cons.1 (htokens ▸ hv.tokens :)).1, h.stop]
    exact absurd (hk ▸ hstarts) (by decide)
  | cons first more =>
    have hcurrent : c.current = first := (List.cons_eq_cons.1 (htokens ▸ hv.tokens :)).1
    rw [State.kind, hcurrent] at hstarts
    refine ⟨first, more, rfl, ?_, ?_⟩ <;> intro hk <;> exact absurd (hk ▸ hstarts) (by decide)

/-- What an item starts with stands first, wherever its tokens stand. -/
theorem exists_first_of_bare {item : Item} {maxDepth : Nat} {front : List Token}
    (h : item.IsReturned maxDepth) (hb : front.map Token.bare = item.tokens.map Token.bare) :
    ∃ token more first, front = token :: more ∧ first ∈ item.tokens.head? ∧
      token.kind = first.kind ∧ token.kind ≠ .closeBracket ∧ token.kind ≠ .colon := by
  obtain ⟨first, more, htokens, hclose, hcolon⟩ := exists_first h
  rw [htokens, List.map_cons] at hb
  obtain ⟨token, front, rfl, hfirst, -⟩ := List.map_eq_cons_iff.1 hb
  have hk : token.kind = first.kind := (congrArg Token.kind hfirst :)
  exact ⟨token, front, first, rfl, by rw [htokens, List.head?_cons, Option.mem_some_iff], hk,
    hk ▸ hclose, hk ▸ hcolon⟩

/-- The nodes are those there were, with others after them. -/
theorem State.getElem?_of_append {s s' : State} {added : List Node}
    (h : s'.nodes.toList = s.nodes.toList ++ added) {id : NodeId} {node : Node}
    (hn : s.nodes[id]? = some node) : s'.nodes[id]? = some node := by
  rw [← Array.getElem?_toList] at hn ⊢
  obtain ⟨hlt, -⟩ := List.getElem?_eq_some_iff.1 hn
  rw [h, List.getElem?_append_left hlt, hn]

structure ItemRead (item : Item) (s : State) (after : List Token) (value : NodeId) (s' : State) :
    Prop where
  tokens : s'.tokens = after
  depth : s'.depth = s.depth
  nodes {id : NodeId} {node : Node} : s.nodes[id]? = some node → s'.nodes[id]? = some node
  held : item.IsHeld s'.nodes value

structure Stands (item : Item) (s : State) (next : Token) (more : List Token) : Prop where
  tokens : ∃ front, s.tokens = front ++ next :: more ∧
    front.map Token.bare = item.tokens.map Token.bare
  depth : s.depth = 1
  behind : next.kind = .comma ∨ next.kind = .closeBracket
  closed : item.IsClosed
  /-- What comes next makes no attribute of a `yield` that ends the item. -/
  plain : continuesAsAttributes .standard { current := next, ahead := more } →
    ¬EndsIn item.parsed.tree.nodes (YieldsType item.parsed.tree.nodes) item.value

section
variable {item : Item} {setup : Setup} {maxDepth : Nat} {s : State} {more : List Token}
  {next : Token}

theorem Stands.closing (h : Stands item s next more) : next.kind.endsConstruct := by
  rcases h.behind with hk | hk <;> rw [hk] <;> rfl

def Stands.site (h : Stands item s next more) : Site :=
  ⟨s.nodes.toList, 1, next, more, h.closing⟩

theorem Stands.embedded {setup' : Setup} {n : Nat} {c c' : State} (h : Stands item s next more)
    (hr : item.IsReturned maxDepth) (hv : ValueRead item setup' n c c') :
    Embedded h.site s c := by
  obtain ⟨front, hs, hb⟩ := h.tokens
  exact .here hs hv.tokens hr.stop hr.inner hb rfl hv.nodes (by rw [h.depth, hv.depth]; rfl)

theorem Stands.starts (h : Stands item s next more) (hr : item.IsReturned maxDepth) :
    s.kind ≠ .closeBracket := by
  obtain ⟨front, hs, hb⟩ := h.tokens
  obtain ⟨token, front, first, rfl, -, -, hclose, -⟩ := exists_first_of_bare hr hb
  rwa [State.kind, (List.cons_eq_cons.1 (show s.current :: s.ahead = _ from hs)).1]

/-- What ends the item ends it where it stands. -/
theorem Stands.admits {setup' : Setup} {n : Nat} {c c' : State} (h : Stands item s next more)
    (hv : ValueRead item setup' n c c') : h.site.Admits item.value c' := by
  obtain ⟨node, htree⟩ := hv.tree
  have hends {sort sort' : Shape → Prop} (hsort : ∀ shape, sort shape → sort' shape)
      (he : EndsIn c'.nodes sort item.value) : EndsIn item.parsed.tree.nodes sort' item.value :=
    htree ▸ he.mono getElem?_push_of_some hsort
  refine ⟨fun he => (h.closed (hends (fun _ h => h) he)).elim, fun he => ?_⟩
  by_contra hc
  refine h.plain (eq_true_of_ne_false hc) (hends (fun _ hy => ?_) he)
  rw [htree]
  exact hy.mono getElem?_push_of_some

/-- An item is read as an element of a list. -/
theorem Stands.yields (h : Stands item s next more) (hr : item.IsReturned maxDepth)
    (ht : setup.table = .standard) (hd : setup.maxDepth = maxDepth + 1) (n : Nat) :
    (value (Rule.runWith n) setup s).Yields (ItemRead item s (next :: more)) := by
  obtain ⟨setup', m, c, c', rfl, hv⟩ := exists_valueRead hr
  obtain ⟨node, htree⟩ := hv.tree
  have hs := h.embedded hr hv
  have hvalue : Embeds h.site h.site.Admits (Rule.runWith n (.expression .lowest))
      (Rule.runWith m (.expression .lowest)) := embeds_run fun _ _ h => h
  refine (hvalue.yields ⟨ht, hv.table, hd.ge⟩ hs hv.done fun _ => h.admits hv).mono ?_
  rintro i s' ⟨rfl, hs'⟩
  obtain ⟨hcurrent, hahead, -⟩ := hs'.outside hv.ended
  obtain ⟨added, hadded, -⟩ := hs'.nodes
  refine ⟨congrArg₂ List.cons hcurrent hahead, ?_, State.getElem?_of_append hadded, _,
    c'.nodes.size, ?_, hv.value, rfl, fun id node' hid hn' => ?_⟩
  · rw [hs'.depth, hs.depth, (kept_of_done hv.done).depth]
  · rw [htree, Array.size_push]
    exact Nat.le_succ _
  · refine hs'.getElem? ?_
    rw [htree, Array.getElem?_push, if_neg (Nat.ne_of_lt hid)] at hn'
    exact hn'

end

/-! ## The list -/

/-- Tokens with the items in them, commas between and a closing bracket behind, and the tokens
after that. -/
inductive Listed : List Item → List Token → List Token → Prop
  | last {item : Item} {front : List Token} {close : Token} {rest : List Token}
      (hb : front.map Token.bare = item.tokens.map Token.bare) (hk : close.kind = .closeBracket) :
      Listed [item] (front ++ close :: rest) rest
  | cons {item next : Item} {front : List Token} {comma : Token} {items : List Item}
      {tokens rest : List Token} (hb : front.map Token.bare = item.tokens.map Token.bare)
      (hk : comma.kind = .comma) (hp : item.Precedes next) (h : Listed (next :: items) tokens rest) :
      Listed (item :: next :: items) (front ++ comma :: tokens) rest

theorem Listed.exists_front {item : Item} {items : List Item} {tokens rest : List Token}
    (h : Listed (item :: items) tokens rest) :
    ∃ front more, tokens = front ++ more ∧ front.map Token.bare = item.tokens.map Token.bare := by
  cases h with
  | last hb => exact ⟨_, _, rfl, hb⟩
  | cons hb => exact ⟨_, _, rfl, hb⟩

/-- A closing bracket stands before what stands behind the list. -/
theorem Listed.exists_listed {items : List Item} {tokens rest : List Token}
    (h : Listed items tokens rest) : ∃ listed, tokens = listed ++ rest ∧ listed ≠ [] := by
  induction h with
  | @last item front close rest => exact ⟨front ++ [close], by simp, by simp⟩
  | @cons item next front comma items tokens rest hb hk hp h ih =>
    obtain ⟨listed, rfl, -⟩ := ih
    exact ⟨front ++ comma :: listed, by simp, by simp⟩

theorem Listed.ne_nil {items : List Item} {tokens rest : List Token} (h : Listed items tokens rest) :
    tokens ≠ [] := by
  obtain ⟨listed, rfl, hne⟩ := h.exists_listed
  simp [hne]

/-- Where a list goes on, an attribute does not. -/
theorem Listed.plain {item next : Item} {items : List Item} {tokens rest : List Token}
    {comma : Token} {maxDepth : Nat} (h : Listed (next :: items) tokens rest)
    (hr : next.IsReturned maxDepth) (hk : comma.kind = .comma) (hp : item.Precedes next)
    (hc : continuesAsAttributes .standard { current := comma, ahead := tokens }) :
    ¬EndsIn item.parsed.tree.nodes (YieldsType item.parsed.tree.nodes) item.value := by
  obtain ⟨front, behind, rfl, hb⟩ := h.exists_front
  obtain ⟨token, more, first, rfl, hfirst, hkind, -, hcolon⟩ := exists_first_of_bare hr hb
  refine hp ⟨first, hfirst, ?_⟩
  rw [← hkind]
  simpa [continuesAsAttributes, State.kind, State.peek, hk, hcolon] using hc

theorem delimited_apply (close : Token.Kind) (element : Parse NodeId) (setup : Setup) (s : State) :
    delimited close element setup s =
      (iterate (collectTurn (nextElement close element)) (s.remaining + 1) [] >>= fun elements => do
        let _ ← expectOr close (unexpected [.token .comma, .token close])
        return elements) setup s := rfl

section
variable {setup : Setup} {maxDepth : Nat} {s : State}

/-- After an element the list goes on if a comma follows. -/
theorem nextElement_yields {close : Token.Kind} {element : Parse NodeId} {P : NodeId → State → Prop}
    (hk : s.kind ≠ close) (h : (element setup s).Yields P) (before : List NodeId) :
    (collectTurn (nextElement close element) before setup s).Yields fun turn s' =>
      ∃ value s₁, P value s₁ ∧ s' = s₁.skip .comma ∧
        turn = if s₁.kind = .comma then .again (value :: before)
          else .finish (value :: before).reverse := by
  have hat : isAt close setup s = .done false s :=
    isAt_done.2 ⟨(beq_eq_false_iff_ne.2 hk).symm, rfl⟩
  refine bind_yields (P := fun next s' => ∃ value s₁, P value s₁ ∧ s' = s₁.skip .comma ∧
    next = some (value, s₁.kind == .comma)) ?_ ?_
  · refine bind_yields (P := fun b s' => b = false ∧ s' = s) (hat ▸ .done ⟨rfl, rfl⟩) ?_
    rintro _ _ ⟨rfl, rfl⟩
    refine bind_yields h fun value s₁ hp => ?_
    refine bind_yields (P := fun b s' => b = (s₁.kind == .comma) ∧ s' = s₁.skip .comma) ?_ ?_
    · have heat : eat .comma setup s₁ = .done (s₁.kind == .comma) (s₁.skip .comma) :=
        eat_done.2 ⟨rfl, rfl⟩
      exact heat ▸ .done ⟨rfl, rfl⟩
    · rintro _ _ ⟨rfl, rfl⟩
      exact .done ⟨value, s₁, hp, rfl, rfl⟩
  · rintro _ _ ⟨value, s₁, hp, rfl, rfl⟩
    by_cases hc : s₁.kind = .comma
    · simp only [hc, beq_self_eq_true]
      exact .done ⟨value, s₁, hp, rfl, by rw [if_pos hc]⟩
    · simp only [beq_eq_false_iff_ne.2 hc]
      exact .done ⟨value, s₁, hp, rfl, by rw [if_neg hc]⟩

structure ListRead (items : List Item) (s : State) (rest : List Token) (values : List NodeId)
    (s' : State) : Prop where
  tokens : ∃ close, s'.tokens = close :: rest ∧ close.kind = .closeBracket
  depth : s'.depth = s.depth
  nodes {id : NodeId} {node : Node} : s.nodes[id]? = some node → s'.nodes[id]? = some node
  held : List.Forall₂ (fun value item => item.IsHeld s'.nodes value) values items

/-- The items of a list are read one after the other. -/
theorem Listed.yields {items : List Item} {tokens rest : List Token} (hl : Listed items tokens rest)
    (hr : ∀ item ∈ items, item.IsReturned maxDepth) (hc : ∀ item ∈ items, item.IsClosed)
    (ht : setup.table = .standard) (hd : setup.maxDepth = maxDepth + 1) (htokens : s.tokens = tokens)
    (hdepth : s.depth = 1) (n turns : Nat) (before : List NodeId) :
    (iterate (collectTurn (nextElement .closeBracket (value (Rule.runWith n)))) turns before
      setup s).Yields fun ids s' =>
        ∃ values, ids = before.reverse ++ values ∧ ListRead items s rest values s' := by
  induction hl generalizing s turns before with
  | @last item front close rest hb hk =>
    cases turns with
    | zero => exact .exhausted
    | succ turns =>
      have hr := hr item List.mem_cons_self
      have hs : Stands item s close rest :=
        ⟨⟨front, htokens, hb⟩, hdepth, .inr hk, hc item List.mem_cons_self,
          by simp [continuesAsAttributes, State.kind, hk]⟩
      refine bind_yields (nextElement_yields (hs.starts hr) (hs.yields hr ht hd n) before) ?_
      rintro _ _ ⟨value, s₁, hread, rfl, rfl⟩
      have hs₁ : s₁.kind = .closeBracket := by
        rw [State.kind, (List.cons_eq_cons.1 hread.tokens).1, hk]
      rw [if_neg (by simp [hs₁]), State.skip, if_neg (by simp [hs₁])]
      exact .done ⟨[value], by simp, ⟨close, hread.tokens, hk⟩, hread.depth, hread.nodes,
        .cons hread.held .nil⟩
  | @cons item next front comma items tokens rest hb hk hp hl ih =>
    cases turns with
    | zero => exact .exhausted
    | succ turns =>
      have hr₁ := hr item List.mem_cons_self
      have hs : Stands item s comma tokens :=
        ⟨⟨front, htokens, hb⟩, hdepth, .inl hk, hc item List.mem_cons_self,
          hl.plain (hr next (by simp)) hk hp⟩
      refine bind_yields (nextElement_yields (hs.starts hr₁) (hs.yields hr₁ ht hd n) before) ?_
      rintro _ _ ⟨value, s₁, hread, rfl, rfl⟩
      have hs₁ : s₁.kind = .comma := by
        rw [State.kind, (List.cons_eq_cons.1 hread.tokens).1, hk]
      have hahead : s₁.ahead = tokens := (List.cons_eq_cons.1 hread.tokens).2
      obtain ⟨htokens', hdepth'⟩ := State.advance_of_ahead
        (State.hasTokens_of_kind hs₁ (by decide)) (hahead ▸ hl.ne_nil)
      rw [if_pos hs₁, State.skip, if_pos hs₁]
      refine (ih (fun item hi => hr item (List.mem_cons_of_mem _ hi))
        (fun item hi => hc item (List.mem_cons_of_mem _ hi)) (htokens'.trans hahead)
        (by rw [hdepth', hread.depth, hdepth]) turns (value :: before)).mono ?_
      rintro _ s' ⟨values, rfl, hrest⟩
      have hnodes {id : NodeId} {node : Node} (hn : s₁.nodes[id]? = some node) :
          s'.nodes[id]? = some node := hrest.nodes (by rwa [State.advance_nodes])
      exact ⟨value :: values, by simp, hrest.tokens, by rw [hrest.depth, hdepth', hread.depth],
        fun hn => hnodes (hread.nodes hn), .cons (hread.held.mono hnodes) hrest.held⟩

/-- So is the list, with its closing bracket. -/
theorem Listed.yields_delimited {items : List Item} {rest : List Token}
    (hl : Listed items s.tokens rest) (hrest : rest ≠ [])
    (hr : ∀ item ∈ items, item.IsReturned maxDepth) (hc : ∀ item ∈ items, item.IsClosed)
    (ht : setup.table = .standard) (hd : setup.maxDepth = maxDepth + 1) (hdepth : s.depth = 1)
    (n : Nat) :
    (delimited .closeBracket (value (Rule.runWith n)) setup s).Yields fun values s' =>
      s'.tokens = rest ∧
        List.Forall₂ (fun value item => item.IsHeld s'.nodes value) values items := by
  rw [delimited_apply]
  refine bind_yields (hl.yields hr hc ht hd rfl hdepth n _ []) ?_
  rintro _ s₁ ⟨values, rfl, ⟨close, htokens, hk⟩, -, -, hheld⟩
  obtain ⟨hcurrent, hahead⟩ :=
    List.cons_eq_cons.1 (show s₁.current :: s₁.ahead = close :: rest from htokens)
  have hs₁ : s₁.kind = .closeBracket := by rw [State.kind, hcurrent, hk]
  have hclose : expectOr .closeBracket (unexpected [.token .comma, .token .closeBracket]) setup s₁ =
      .done s₁.current s₁.advance := expectOr_done.2 ⟨hs₁, rfl, rfl⟩
  refine bind_yields (P := fun _ s' => s' = s₁.advance) (hclose ▸ .done rfl) ?_
  rintro _ _ rfl
  obtain ⟨htokens', -⟩ := State.advance_of_ahead (State.hasTokens_of_kind hs₁ (by decide))
    (hahead ▸ hrest)
  refine .done ⟨htokens'.trans hahead, ?_⟩
  rw [State.advance_nodes]
  simpa using hheld

end

/-- Items with commas between them are a list. -/
theorem listed_of_bare {items : List Item} (hne : items ≠ []) (hp : items.IsChain Item.Precedes)
    {tokens rest : List Token} {close : Token} (hk : close.kind = .closeBracket)
    (hb : tokens.map Token.bare = List.intercalate [⟨.comma, ",", default⟩]
      (items.map fun item => item.tokens.map Token.bare) ++ close :: rest) :
    ∃ rest', Listed items tokens rest' ∧ rest'.map Token.bare = rest := by
  induction items generalizing tokens with
  | nil => exact absurd rfl hne
  | cons item items ih =>
    cases items with
    | nil =>
      obtain ⟨front, behind, rfl, hfront, hbehind⟩ := List.map_eq_append_iff.1 hb
      obtain ⟨close', rest', rfl, hclose, hrest⟩ := List.map_eq_cons_iff.1 hbehind
      refine ⟨rest', .last ?_ ?_, hrest⟩
      · simpa [List.intercalate] using hfront
      · rw [← hk]
        exact (congrArg Token.kind hclose :)
    | cons next items =>
      obtain ⟨hfirst, hp⟩ := List.isChain_cons_cons.1 hp
      rw [List.map_cons, List.map_cons, List.intercalate_cons_cons, List.append_assoc,
        List.append_assoc] at hb
      obtain ⟨front, behind, rfl, hfront, hbehind⟩ := List.map_eq_append_iff.1 hb
      obtain ⟨span, tokens, rfl, htokens⟩ := Token.cons_of_bare hbehind
      obtain ⟨rest', hl, hrest⟩ := ih (List.cons_ne_nil _ _) hp htokens
      exact ⟨rest', .cons hfront rfl hfirst hl, hrest⟩

structure ReturnsList (items : List Item) (id : NodeId) (s : State) : Prop where
  ended : s.kind = .eof
  nodes : ∃ value values span span', s.nodes[id]? = some ⟨.returnStatement value, span⟩ ∧
    s.nodes[value]? = some ⟨.array values, span'⟩ ∧
    List.Forall₂ (fun value item => item.IsHeld s.nodes value) values items

theorem Listed.returned {items : List Item} {setup : Setup} {maxDepth : Nat}
    {word opening stop : Token} {tokens : List Token} (hl : Listed items tokens [stop])
    (hword : word.kind = .returnWord) (hopening : opening.kind = .openBracket)
    (hstop : stop.kind = .eof) (hr : ∀ item ∈ items, item.IsReturned maxDepth)
    (hc : ∀ item ∈ items, item.IsClosed) (ht : setup.table = .standard)
    (hd : setup.maxDepth = maxDepth + 1) (n : Nat) :
    (Rule.runWith (n + 6) (.form .statement) setup
      { current := word, ahead := opening :: tokens }).Yields (ReturnsList items) := by
  let start : State := { current := word, ahead := opening :: tokens }
  let s : State := { current := opening, ahead := tokens, lastStop := word.span.stop }
  have hstart : start.kind = .returnWord := hword
  have hs : s.kind = .openBracket := hopening
  change (Rule.runWith (n + 6) (.form .statement) setup start).Yields _
  rw [returnStatement_eq ht hstart (n + 4)]
  have hadvance : start.advance = s := if_pos (State.hasTokens_of_kind hstart (by decide))
  refine bind_yields (P := fun _ s' => s' = s) (.done hadvance) ?_
  rintro _ _ rfl
  obtain ⟨htokens, hdepth⟩ := State.advance_of_ahead (s := s.deeper)
    (State.hasTokens_of_kind hs (by decide)) hl.ne_nil
  have hlist : Listed items s.deeper.advance.tokens [stop] := by rwa [htokens]
  refine bind_yields (array_yields (P := fun values s' => s'.kind = .eof ∧
    List.Forall₂ (fun value item => item.IsHeld s'.nodes value) values items) ht hs
    (hd ▸ Nat.zero_lt_succ _) (n := n + 1) ?_) ?_
  · refine (hlist.yields_delimited (List.cons_ne_nil _ _) hr hc ht hd hdepth _).mono ?_
    rintro values s' ⟨htokens', hheld⟩
    have hs' : s'.kind = .eof := by
      rw [State.kind, (List.cons_eq_cons.1 (show s'.current :: s'.ahead = [stop] from htokens')).1,
        hstop]
    exact ⟨by rw [hs']; rfl, hs', hheld⟩
  · rintro _ _ ⟨values, s₁, span, ⟨hs₁, hheld⟩, rfl, rfl⟩
    refine .done ⟨hs₁, s₁.nodes.size, values, _, span, Array.getElem?_push_size,
      getElem?_push_of_some Array.getElem?_push_size, hheld.imp fun _ _ hh => ?_⟩
    exact hh.mono fun hn => getElem?_push_of_some (getElem?_push_of_some hn)

end Parse

open Parse

/-- Operands without errors are the elements of a list: one `return` of an array that holds a copy
of each.  No operand may end with a statement list after a colon, and none with a `yield` for which
the next operand would go on. -/
theorem Parsed.ofTokens_listed {items : List Item} {maxDepth : Nat} {tokens : Tokens}
    {file : String} {options : Options} (hne : items ≠ [])
    (hr : ∀ item ∈ items, item.IsReturned maxDepth) (hc : ∀ item ∈ items, item.IsClosed)
    (hp : items.IsChain Item.Precedes) (ht : tokens.tokens.map Token.bare = Item.list items)
    (hd : options.maxDepth = maxDepth + 1) :
    Item.AreListed items (ofTokens tokens file options) := by
  obtain ⟨p₁, more, htokens, h₁⟩ := Token.cons_of_bare ht
  obtain ⟨p₂, listed, rfl, h₂⟩ := Token.cons_of_bare h₁
  obtain ⟨rest, hl, hrest⟩ := listed_of_bare hne hp rfl h₂
  obtain ⟨p₃, _, rfl, hend⟩ := Token.cons_of_bare hrest
  obtain rfl := List.map_eq_nil_iff.1 hend
  have hstart : State.start tokens.tokens =
      { current := ⟨.returnWord, "return", p₁⟩, ahead := ⟨.openBracket, "[", p₂⟩ :: listed } := by
    obtain ⟨front, rfl, -⟩ := hl.exists_listed
    rw [htokens, ← List.cons_append, ← List.cons_append, State.start, State.ended_of_eof rfl]
    rfl
  have hyields (n : Nat) : (Rule.runWith (n + 6) (.form .statement) (.standard file options)
      (.start tokens.tokens)).Yields (ReturnsList items) :=
    hstart ▸ hl.returned rfl rfl rfl hr hc rfl hd n
  obtain ⟨id, s, ⟨-, value, values, span, span', hid, hvalue, hheld⟩, hwhole⟩ :=
    ofTokens_of_yields hyields (by rw [hstart]; rfl) fun id s hs => by
      simp [State.hasTokens, hs.ended]
  rw [hwhole]
  exact ⟨rfl, rfl, id, value, values, span, span', rfl, hid, hvalue,
    List.forall₂_iff_zip.2 ⟨hheld.length_eq, fun hmem =>
      (List.forall₂_zip hheld hmem).copy (hr _ (List.of_mem_zip hmem).2)⟩⟩

theorem Parsed.ofTokens_listed_yield :
    let items : List Item := [
      .read [⟨.yieldWord, "yield", default⟩, ⟨.identifier, "a", default⟩] 1 255,
      .read [⟨.identifier, "b", default⟩] 0 255]
    (∀ item ∈ items, item.IsReturned 255) ∧ (∀ item ∈ items, item.IsClosed) ∧
      items.IsChain Item.Precedes ∧
      Item.AreListed items (ofTokens ⟨Item.list items, #[]⟩ "list.sm" {}) := by
  intro items
  have hreturned : ∀ item ∈ items, item.IsReturned 255 := by
    simp only [items, List.forall_mem_cons]
    refine ⟨Item.isReturned_read 2 ?_ ?_ ?_ ?_, Item.isReturned_read 1 ?_ ?_ ?_ ?_, by simp⟩ <;>
      decide +kernel
  have hclosed : ∀ item ∈ items, item.IsClosed := by
    simp only [items, List.forall_mem_cons]
    refine ⟨fun h => ?_, fun h => ?_, by simp⟩
    · rcases h.of_getElem? ⟨.yieldStatement 0, default⟩ (by decide +kernel) with h | ⟨_, ⟨⟩, h⟩
      · cases h
      · rcases h.of_getElem? ⟨.identifier ⟨⟨"a", false, default⟩, [], default⟩, default⟩
          (by decide +kernel) with h | ⟨_, ⟨⟩, _⟩
        cases h
    · rcases h.of_getElem? ⟨.identifier ⟨⟨"b", false, default⟩, [], default⟩, default⟩
        (by decide +kernel) with h | ⟨_, ⟨⟩, _⟩
      cases h
  have hchain : items.IsChain Item.Precedes := by
    refine .cons_cons ?_ (.singleton _)
    rintro ⟨token, htoken, hk⟩
    cases htoken
    simp at hk
  exact ⟨hreturned, hclosed, hchain,
    ofTokens_listed (List.cons_ne_nil _ _) hreturned hclosed hchain rfl rfl⟩

/-- Operands that end with a statement list after a colon, or with a `yield` for which the next
operand goes on, are no elements of a list where the list is given one more level of room. -/
theorem Parsed.ofTokens_not_listed :
    let yields (name : String) : Item :=
      .read [⟨.yieldWord, "yield", default⟩, ⟨.identifier, name, default⟩] 1 256
    let colonList : Item := .read [⟨.yieldWord, "yield", default⟩, ⟨.identifier, "a", default⟩,
      ⟨.colon, ":", default⟩, ⟨.returnWord, "return", default⟩, ⟨.identifier, "b", default⟩] 5 256
    let block : Item := .read [⟨.openCurly, "\x7b", default⟩, ⟨.returnWord, "return", default⟩,
      ⟨.identifier, "b", default⟩, ⟨.closeCurly, "\x7d", default⟩] 2 256
    ∀ items ∈ [[colonList], [yields "a", yields "b"], [yields "a", block]],
      (∀ item ∈ items, item.IsReturned 256) ∧
        ¬Item.AreListed items (ofTokens ⟨Item.list items, #[]⟩ "list.sm" { maxDepth := 257 }) := by
  intro yields colonList block
  simp only [List.forall_mem_cons]
  have hyields (name : String) : (yields name).IsReturned 256 :=
    Item.isReturned_read 2 (by simp) (by cbv) (by cbv) (by cbv)
  have hcolonList : colonList.IsReturned 256 :=
    Item.isReturned_read 6 (by decide) (by decide +kernel) (by decide +kernel) (by decide +kernel)
  have hblock : block.IsReturned 256 :=
    Item.isReturned_read 3 (by decide) (by decide +kernel) (by decide +kernel) (by decide +kernel)
  refine ⟨⟨⟨hcolonList, by simp⟩, fun h => ?_⟩,
    ⟨⟨hyields "a", hyields "b", by simp⟩, fun h => ?_⟩,
    ⟨⟨hyields "a", hblock, by simp⟩, fun h => ?_⟩, by simp⟩
  · have he : (ofTokens ⟨Item.list [colonList], #[]⟩ "list.sm" { maxDepth := 257 }).errors.isEmpty =
        false := by decide +kernel
    rw [h.errors] at he
    cases he
  · have he : (ofTokens ⟨Item.list [yields "a", yields "b"], #[]⟩ "list.sm"
        { maxDepth := 257 }).errors.isEmpty = false := by decide +kernel
    rw [h.errors] at he
    cases he
  · -- The block is the list under the attribute, and the array has one element.
    obtain ⟨id, value, values, span, span', hs, hid, hv, hf⟩ := h.list
    have hs' : (ofTokens ⟨Item.list [yields "a", block], #[]⟩ "list.sm"
        { maxDepth := 257 }).tree.statements = [7] := by decide +kernel
    obtain rfl : id = 7 := (List.singleton_inj.1 (hs'.symm.trans hs)).symm
    have hid' : (ofTokens ⟨Item.list [yields "a", block], #[]⟩ "list.sm"
        { maxDepth := 257 }).tree.get? 7 = some ⟨.returnStatement 6, default⟩ := by decide +kernel
    obtain ⟨rfl, -⟩ : 6 = value ∧ default = span := by simpa using hid'.symm.trans hid
    have hv' : (ofTokens ⟨Item.list [yields "a", block], #[]⟩ "list.sm"
        { maxDepth := 257 }).tree.get? 6 = some ⟨.array [5], default⟩ := by decide +kernel
    obtain ⟨rfl, -⟩ : [5] = values ∧ default = span' := by simpa using hv'.symm.trans hv
    cases hf with
    | cons _ hf => cases hf

end Smaug
