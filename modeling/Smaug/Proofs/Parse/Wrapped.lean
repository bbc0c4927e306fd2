import Mathlib
import Smaug.Proofs.Parse.Embed.Module
import Smaug.Proofs.Token.Joined

/-! # Modules under batch attributes and in functions

A module without errors can be put under batch attributes, in braces or behind a colon, and its
statements stay in the scope of the module that it becomes; in the braces of a function they bind
nothing outside.
-/

namespace Smaug

/-! ## Tokens -/

namespace Tokens

theorem ne_nil_of_collect {options : Options} {file : String} {readings : List Reading}
    {tokens : Array Token} {errors : Array Error} {refused : List Error}
    (h : collect options file tokens errors readings = .error refused) : refused ≠ [] := by
  have hpush (error : Error) : (errors.push error).toList ≠ [] := by simp
  have hfinish {tokens : Array Token} (h : collect.finish errors tokens = .error refused) :
      refused ≠ [] := by
    unfold collect.finish at h
    split at h <;> cases h
    simpa using ‹¬errors.isEmpty›
  induction readings generalizing tokens errors with
  | nil => exact hfinish h
  | cons reading readings ih =>
    match reading with
    | .token token =>
      rw [collect] at h
      split at h
      · exact hfinish h
      · split at h
        · split at h
          · cases h
            exact hpush _
          · exact ih h hpush hfinish
        · exact ih h hpush hfinish
    | .error error =>
      rw [collect] at h
      split at h
      · cases h
        exact hpush _
      · exact ih h (by simp) fun hf => by
          unfold collect.finish at hf
          split at hf <;> cases hf
          simp
    | .misplaced => exact hfinish h

/-- A source without errors has tokens. -/
theorem exists_of_errors_nil {source file : String} {options : Options}
    (h : (Parsed.ofSource source file options).errors = []) :
    ∃ tokens, ofSource source file options = .ok tokens := by
  cases ht : ofSource source file options with
  | ok tokens => exact ⟨tokens, rfl⟩
  | error errors =>
    have herrors : errors = [] := by simpa [Parsed.ofSource, ht] using h
    unfold ofSource at ht
    split at ht
    · cases ht
      cases herrors
    · dsimp only at ht
      cases hc : collect options file #[] #[] (Reader.ofSource source file).drain.1 with
      | ok => simp [hc, Except.map] at ht
      | error refused =>
        simp only [hc, Except.map, Except.error.injEq] at ht
        exact absurd (ht.trans herrors) (ne_nil_of_collect hc)

end Tokens

namespace Parse

/-- A parse has come to the end of the input with batch attributes over copies of statements. -/
structure BatchOf (nodes : Array Node) (ids : List NodeId) (id : NodeId) (s : State) : Prop where
  ended : s.hasTokens = false
  copies : ∀ (i : NodeId) (node' : Node), nodes[i]? = some node' → ∃ node, s.nodes[i + 2]? = some node ∧
    node.shape.bare = node'.shape.renumbered (· + 2)
  size : nodes.size + 4 ≤ s.nodes.size
  root : ∃ attributes body form span span',
    s.nodes[id]? = some ⟨.batchAttributes attributes body, span⟩ ∧
      s.nodes[body]? = some ⟨.transparentList form (ids.map (· + 2)), span'⟩

theorem Embedded.batchOf {f : Site} {s s' c : State} (h : Embedded f s c)
    (hf : f.before.length = 2) (hn : s'.nodes = s.nodes) (ht : s'.hasTokens = false)
    (attributes : List NodeId) (form : ListForm) (ids : List NodeId) (span span' : Span) :
    let s₁ := s'.push ⟨.transparentList form (ids.map (· + 2)), span'⟩
    BatchOf c.nodes ids s₁.nodes.size
      (s₁.push ⟨.batchAttributes attributes s'.nodes.size, span⟩) where
  ended := ht
  copies i node' hi := by
    obtain ⟨node, hnode, hs⟩ := h.getElem? hi
    rw [hf] at hnode hs
    exact ⟨node, getElem?_push_of_some (getElem?_push_of_some (hn ▸ hnode)), hs⟩
  size := by
    have hsize := h.size_nodes
    simp only [State.push, Array.size_push, hn]
    omega
  root := ⟨attributes, s'.nodes.size, form, span, span', Array.getElem?_push_size,
    getElem?_push_of_some Array.getElem?_push_size⟩

structure ListOf (nodes : Array Node) (ids : List NodeId) (before : Array Node) (copies : List NodeId)
    (s : State) : Prop where
  ended : s.hasTokens = false
  copies : copies = ids.map (· + before.size)
  embedded : ∃ f s₁ c, Embedded f s₁ c ∧ c.nodes = nodes ∧ f.before = before.toList ∧
    s.nodes = s₁.nodes

/-- A list of copies of statements, pushed with attributes over it. -/
theorem ListOf.yields_batch {nodes before : Array Node} {ids copies : List NodeId} {s : State}
    {setup : Setup} (h : ListOf nodes ids before copies s) (hbefore : before.size = 2)
    (form : ListForm) (attributes : List NodeId) (start start' : Nat) :
    ((pushFrom start' (.transparentList form copies) >>= fun body =>
      pushFrom start (.batchAttributes attributes body)) setup s).Yields (BatchOf nodes ids) := by
  obtain ⟨ht, rfl, f, s₁, c, hs, rfl, hf, hn⟩ := h
  rw [hbefore]
  refine .done (hs.batchOf ?_ hn ht attributes form ids _ _)
  rw [hf, Array.length_toList, hbefore]

/-- The tokens of a piece are a list of statements, in a file of their own. -/
structure Itemized (file : String) (piece : List Token) (ids : List NodeId) (c : State) : Prop where
  inner : ∀ token ∈ piece, token.kind ≠ .eof
  done : ∃ stop : Token, stop.kind = .eof ∧
    bracedItems (Rule.form .statement).parse (.standard file {}) (.start (piece ++ [stop])) =
      .done ids c
  ended : c.kind = .eof

section
variable {file : String} {piece front : List Token} {finish : Token} {ids : List NodeId} {c : State}

/-- In two files there is as much room for nesting. -/
theorem Site.suits_standard {f : Site} (hf : f.depth = 0) (file file' : String) :
    f.Suits (.standard file' {}) (.standard file {}) := ⟨rfl, rfl, by simp [Setup.standard, hf]⟩

variable (file' : String) (h : Itemized file piece ids c)
  (hb : front.map Token.bare = piece.map Token.bare) (hfinish : finish.kind = .eof)

include h hb hfinish

/-- Statements up to the end of the input start with a statement, if there are any. -/
theorem starts_whole {s : State} (hs : s.tokens = front ++ [finish]) :
    s.kind = .eof ∨ (Table.statements s.kind).isSome := by
  obtain ⟨stop, hstop, hd⟩ := h.done
  let f : Site := ⟨s.nodes.toList, s.depth, finish, [], by rw [hfinish]; rfl⟩
  have hs : Embedded f s (.start (piece ++ [stop])) := .start hs hstop h.inner hb rfl rfl
  rcases starts_of_bracedItems rfl hd h.ended with hk | hk
  · exact .inl (by rw [State.kind, (hs.outside hk).1, hfinish])
  · have ht : (State.start (piece ++ [stop])).hasTokens :=
      State.hasTokens_of_ne fun he => by
        rw [he] at hk
        cases hk
    rw [← hs.kind ht] at hk
    exact .inr hk

/-- Statements up to the end of the input. -/
theorem bracedItems_whole {s : State} (hs : s.tokens = front ++ [finish]) (hdepth : s.depth = 0)
    (n : Nat) :
    (bracedItems (Rule.runWith n (.form .statement)) (.standard file' {}) s).Yields
      (ListOf c.nodes ids s.nodes) := by
  obtain ⟨stop, hstop, hd⟩ := h.done
  let f : Site := ⟨s.nodes.toList, 0, finish, [], by rw [hfinish]; rfl⟩
  have hs : Embedded f s (.start (piece ++ [stop])) := .start hs hstop h.inner hb rfl hdepth
  refine (bracedItems_embedded (.inr hfinish) (Site.suits_standard rfl file file') hs hd n).mono ?_
  rintro ids' s' ⟨rfl, hs'⟩
  have hk : s'.kind = .eof := by rw [State.kind, (hs'.outside h.ended).1, hfinish]
  exact ⟨by simp [State.hasTokens, hk], rfl, f, s', c, hs', rfl, rfl, rfl⟩

/-- Statements in braces, with the end of the input behind them. -/
theorem bracedStatements_whole {close : Token} (hclose : close.kind = .closeCurly) {s : State}
    (hs : s.tokens = front ++ [close, finish]) (hdepth : s.depth = 0) (n : Nat) (construct : String)
    (opening : Span) :
    (bracedStatements (Rule.runWith n) construct opening (.standard file' {}) s).Yields
      (ListOf c.nodes ids s.nodes) := by
  obtain ⟨stop, hstop, hd⟩ := h.done
  let f : Site := ⟨s.nodes.toList, 0, close, [finish], by rw [hclose]; rfl⟩
  have hs : Embedded f s (.start (piece ++ [stop])) := .start hs hstop h.inner hb rfl hdepth
  refine (bracedStatements_embedded hclose (Site.suits_standard rfl file file') hs hd h.ended n
    construct opening).mono ?_
  rintro ids' s' ⟨rfl, s₁, hs₁, rfl⟩
  obtain ⟨hcurrent, hahead, -⟩ := hs₁.outside h.ended
  have hk : s₁.kind = .closeCurly := by rw [State.kind, hcurrent, hclose]
  have ht : s₁.hasTokens := State.hasTokens_of_kind hk (by decide)
  obtain ⟨htokens, -⟩ := State.advance_of_ahead ht (by simp [hahead, f])
  obtain ⟨hcurrent, -⟩ := List.cons_eq_cons.1 (htokens.trans hahead)
  exact ⟨by simp [State.hasTokens, State.kind, hcurrent, hfinish], rfl, f, s₁, c, hs₁, rfl, rfl,
    s₁.advance_nodes⟩

/-- Attributes over statements in braces. -/
theorem batch_braced {v₁ v₂ v₃ : String} {p₁ p₂ p₃ : Span} {close : Token}
    (hclose : close.kind = .closeCurly) (n : Nat) :
    (Rule.runWith (n + 6) (.form .statement) (.standard file' {})
      { current := ⟨.yieldWord, v₁, p₁⟩
        ahead := ⟨.builtIn, v₂, p₂⟩ :: ⟨.openCurly, v₃, p₃⟩ :: (front ++ [close, finish]) }).Yields
      (BatchOf c.nodes ids) := by
  obtain ⟨next, more, hnext⟩ : ∃ next more, front ++ [close, finish] = next :: more :=
    List.exists_cons_of_ne_nil (by simp)
  let s : State := { current := next, ahead := more, lastStop := p₃.stop, nodes := #[
    ⟨.identifier (.single ⟨v₂, true, p₂⟩), p₂⟩,
    ⟨.yieldAttribute 0, ⟨p₁.start, max p₂.stop p₁.start⟩⟩] }
  have hitems := bracedStatements_whole file' h hb hfinish hclose
    (s := s) hnext.symm rfl (n + 4) "attribute block" p₃
  rw [hnext]
  change ((do
    let body ← (do
      let statements ← bracedStatements (Rule.runWith (n + 4)) "attribute block" p₃
      pushFrom p₃.start (.transparentList .braced statements))
    pushFrom p₁.start (.batchAttributes [1] body)) (.standard file' {}) s).Yields _
  rw [bind_bind_apply]
  exact bind_yields hitems fun _ s' h => h.yields_batch rfl .braced [1] p₁.start p₃.start

/-- Attributes over statements up to the end of the input. -/
theorem batch_colon {v₁ v₂ v₃ : String} {p₁ p₂ p₃ : Span} (n : Nat) :
    (Rule.runWith (n + 6) (.form .statement) (.standard file' {})
      { current := ⟨.yieldWord, v₁, p₁⟩
        ahead := ⟨.builtIn, v₂, p₂⟩ :: ⟨.colon, v₃, p₃⟩ :: (front ++ [finish]) }).Yields
      (BatchOf c.nodes ids) := by
  obtain ⟨next, more, hnext⟩ : ∃ next more, front ++ [finish] = next :: more :=
    List.exists_cons_of_ne_nil (by simp)
  let s : State := { current := next, ahead := more, lastStop := p₃.stop, nodes := #[
    ⟨.identifier (.single ⟨v₂, true, p₂⟩), p₂⟩,
    ⟨.yieldAttribute 0, ⟨p₁.start, max p₂.stop p₁.start⟩⟩] }
  have hitems := bracedItems_whole file' h hb hfinish
    (s := s) hnext.symm rfl (n + 4)
  have hstart := starts_whole h hb hfinish (s := s) hnext.symm
  let s₀ : State := {
    current := ⟨.colon, v₃, p₃⟩, ahead := next :: more, lastStop := p₂.stop
    nodes := #[⟨.identifier (.single ⟨v₂, true, p₂⟩), p₂⟩] }
  rw [hnext]
  change (yieldAfter (Rule.runWith (n + 4)) p₁.start 0 (.standard file' {}) s₀).Yields _
  have hcont : continuesAsAttributes .standard s₀ := by
    rcases hstart with hk | hk
    · have hk : next.kind = .eof := hk
      simp [s₀, continuesAsAttributes, State.kind, State.peek, hk]
    · have hk : (Table.standard.statement next.kind).isSome := hk
      simp [s₀, continuesAsAttributes, State.kind, State.peek, hk]
  rw [yieldAfter_eq rfl, if_pos hcont]
  change ((do
    let body ← (do
      let statements ← bracedItems (Rule.runWith (n + 4) (.form .statement))
      pushFrom p₃.start (.transparentList .colon statements))
    pushFrom p₁.start (.batchAttributes [1] body)) (.standard file' {}) s).Yields _
  rw [bind_bind_apply]
  exact bind_yields hitems fun _ s' h => h.yields_batch rfl .colon [1] p₁.start p₃.start

/-- A function with the statements as its body. -/
theorem function_braced {v₁ v₂ v₃ v₄ v₅ : String} {p₁ p₂ p₃ p₄ p₅ : Span} {close : Token}
    (hclose : close.kind = .closeCurly) (n : Nat) :
    (Rule.runWith (n + 6) (.form .statement) (.standard file' {})
      { current := ⟨.letWord, v₁, p₁⟩
        ahead := ⟨.identifier, v₂, p₂⟩ :: ⟨.openParen, v₃, p₃⟩ :: ⟨.closeParen, v₄, p₄⟩ ::
          ⟨.openCurly, v₅, p₅⟩ :: (front ++ [close, finish]) }).Yields fun id s =>
      s.hasTokens = false ∧ ∃ name signature body span,
        name.text = v₂ ∧ s.nodes[id]? = some ⟨.letFunction name signature body, span⟩ := by
  obtain ⟨next, more, hnext⟩ : ∃ next more, front ++ [close, finish] = next :: more :=
    List.exists_cons_of_ne_nil (by simp)
  let s : State := { current := next, ahead := more, lastStop := p₅.stop, nodes := #[
    ⟨.tuplePattern [], ⟨p₃.start, max p₄.stop p₃.start⟩⟩,
    ⟨.functionSignature 0 none [], ⟨p₃.start, max p₄.stop p₃.start⟩⟩] }
  have hitems := bracedStatements_whole file' h hb hfinish hclose
    (s := s) hnext.symm rfl (n + 3) "block" p₅
  rw [hnext]
  change ((do
    let body ← (do
      let block ← (do
        let statements ← bracedStatements (Rule.runWith (n + 3)) "block" p₅
        pushFrom p₅.start (.block statements))
      pure (Body.block block))
    pushFrom p₁.start (.letFunction ⟨v₂, false, p₂⟩ 1 body)) (.standard file' {}) s).Yields _
  rw [bind_bind_apply, bind_bind_apply]
  refine bind_yields hitems fun statements s' h => .done ⟨h.ended, ?_⟩
  exact ⟨_, _, _, _, rfl, Array.getElem?_push_size⟩

end

/-! ## Bindings -/

/-- Batch attributes over copies of the statements of a tree bind what the tree binds. -/
theorem BatchOf.moduleBindings {tree tree' : Tree} {id : NodeId} {s : State} {names : List String}
    (h : BatchOf tree'.nodes tree'.statements id s) (hn : tree.nodes = s.nodes)
    (hs : tree.statements = [id]) (hb : tree'.moduleBindings? = some names) :
    tree.moduleBindings? = some names := by
  obtain ⟨attributes, body, form, span, span', hroot, hbody⟩ := h.root
  have hsize := h.size
  rw [← hn] at hsize
  obtain ⟨m, hm⟩ : ∃ m, tree.nodes.size = m + 1 := ⟨tree.nodes.size - 1, by omega⟩
  have hdepth : tree'.nodes.size + 1 ≤ m := by omega
  have hholds : tree.Holds tree' (· + 2) := fun i node' hi => by
    rw [Tree.get?, hn]
    exact h.copies i node' hi
  obtain ⟨all, hall, hnames⟩ := Option.bind_eq_some_iff.1 hb
  have hcopies : (tree'.statements.map (· + 2)).mapM (tree.statementNames m) = some all :=
    mapM_copied (fun _ _ => hholds.statementNames hdepth) hall
  have hlist : tree.statementNames (m + 1) body = some names := by
    have hbody : tree.get? body = _ := hn ▸ hbody
    rw [Tree.statementNames_succ, hbody, Option.bind_some]
    exact Option.bind_eq_some_iff.2 ⟨all, hcopies, hnames⟩
  have hbatch : tree.statementNames (tree.nodes.size + 1) id = some names := by
    have hroot : tree.get? id = _ := hn ▸ hroot
    rw [Tree.statementNames_succ, hroot, hm]
    exact hlist
  rw [Tree.moduleBindings?, Tree.scopeBindings?, hs]
  simp [hbatch]

/-- A tree in post-order has a list of names. -/
theorem Forest.exists_moduleBindings {tree : Tree} (h : Forest tree.nodes tree.roots) :
    ∃ names, tree.moduleBindings? = some names := by
  have hid : ∀ id ∈ tree.statements, ∃ names,
      tree.statementNames (tree.nodes.size + 1) id = some names := by
    intro id hid
    have hlt : id < tree.nodes.size := List.mem_range.1 (h.once.subset (by simp [Tree.roots, hid]))
    exact Tree.exists_statementNames h.backward (Nat.lt_succ_of_lt hlt) hlt
  obtain ⟨all, hall⟩ := exists_mapM hid
  exact ⟨all.flatten, by simp [Tree.moduleBindings?, Tree.scopeBindings?, hall]⟩

/-! ## Sources -/

/-- The tokens of a source without errors and without a header are a list of statements. -/
theorem itemized_of_ofSource {source file : String}
    (h : (Parsed.ofSource source file {}).errors = [])
    (hh : (Parsed.ofSource source file {}).tree.header = none) :
    ∃ piece stop trivia ids c, Tokens.ofSource source file {} = .ok ⟨piece ++ [stop], trivia⟩ ∧
      stop.kind = .eof ∧ Itemized file piece ids c ∧
      (Parsed.ofSource source file {}).tree = { file, nodes := c.nodes, statements := ids, trivia } := by
  obtain ⟨⟨tokens, trivia⟩, ht⟩ := Tokens.exists_of_errors_nil h
  obtain ⟨piece, stop, rfl, hstop, hp⟩ := (Tokens.ofSource_lexed ht).closed
  have hsource := Parsed.ofSource_eq_ofTokens ht
  rw [hsource] at h hh
  obtain ⟨ids, c, hd, hc, htree⟩ := items_of_ofTokens h hh
  exact ⟨piece, stop, trivia, ids, c, ht, hstop, ⟨hp, ⟨stop, hstop, hd⟩, hc⟩, by rw [hsource, htree]⟩

theorem ofSource_batchHead : Tokens.ofSource "yield int \x7b" "" {} = .ok
    { tokens := [⟨.yieldWord, "yield", ⟨0, 5⟩⟩, ⟨.builtIn, "int", ⟨6, 9⟩⟩,
        ⟨.openCurly, "\x7b", ⟨10, 11⟩⟩, .endAt (.emptyAt 11)]
      trivia := #[⟨.whitespace, ⟨5, 6⟩⟩, ⟨.whitespace, ⟨9, 10⟩⟩] } := by decide +kernel

theorem ofSource_batchColonHead : Tokens.ofSource "yield int:" "" {} = .ok
    { tokens := [⟨.yieldWord, "yield", ⟨0, 5⟩⟩, ⟨.builtIn, "int", ⟨6, 9⟩⟩,
        ⟨.colon, ":", ⟨9, 10⟩⟩, .endAt (.emptyAt 10)]
      trivia := #[⟨.whitespace, ⟨5, 6⟩⟩] } := by decide +kernel

theorem ofSource_functionHead : Tokens.ofSource "let f() \x7b" "" {} = .ok
    { tokens := [⟨.letWord, "let", ⟨0, 3⟩⟩, ⟨.identifier, "f", ⟨4, 5⟩⟩, ⟨.openParen, "(", ⟨5, 6⟩⟩,
        ⟨.closeParen, ")", ⟨6, 7⟩⟩, ⟨.openCurly, "\x7b", ⟨8, 9⟩⟩, .endAt (.emptyAt 9)]
      trivia := #[⟨.whitespace, ⟨3, 4⟩⟩, ⟨.whitespace, ⟨7, 8⟩⟩] } := by decide +kernel

theorem ofSource_close : Tokens.ofSource "\x7d" "" {} = .ok
    { tokens := [⟨.closeCurly, "\x7d", ⟨0, 1⟩⟩, .endAt (.emptyAt 1)], trivia := #[] } := by
  decide +kernel

section
variable {head source file file' name : String} {first tokens : Tokens} {piece : List Token}
  {stop : Token} {trivia : Array Trivia} (hhead : Tokens.ofSource head file' {} = .ok first)
  (hsource : Tokens.ofSource source file {} = .ok ⟨piece ++ [stop], trivia⟩)

include hhead hsource

/-- The tokens of a source behind a first line. -/
theorem ofSource_behind (hsize : (head ++ "\n" ++ source).utf8ByteSize ≤ Span.maxOffset)
    (hstop : stop.kind = .eof) (name : String) :
    ∃ tokens, Tokens.ofSource (head ++ "\n" ++ source) name {} = .ok tokens ∧
      ∃ opening front finish, tokens.tokens = opening ++ (front ++ [finish]) ∧
        opening.map Token.bare = (first.tokens.map Token.bare).dropLast ∧
        front.map Token.bare = piece.map Token.bare ∧ finish.kind = .eof := by
  obtain ⟨tokens, ht, hb⟩ := Tokens.ofSource_joined hhead hsource hsize name
  obtain ⟨opening, more, hsplit, hopening, hmore⟩ := List.map_eq_append_iff.1 hb
  rw [List.map_append, List.map_singleton] at hmore
  obtain ⟨front, last, rfl, hfront, hlast⟩ := List.map_eq_append_iff.1 hmore
  obtain ⟨finish, rfl, hfinish⟩ := List.map_eq_singleton_iff.1 hlast
  exact ⟨tokens, ht, opening, front, finish, hsplit, hopening, hfront,
    (congrArg Token.kind hfinish).trans hstop⟩

/-- The tokens of a source between a first line and a closing brace. -/
theorem ofSource_between
    (hsize : (head ++ "\n" ++ source ++ "\n" ++ "\x7d").utf8ByteSize ≤ Span.maxOffset)
    (hstop : stop.kind = .eof) (name : String) :
    ∃ tokens, Tokens.ofSource (head ++ "\n" ++ source ++ "\n" ++ "\x7d") name {} = .ok tokens ∧
      ∃ opening front close finish, tokens.tokens = opening ++ (front ++ [close, finish]) ∧
        opening.map Token.bare = (first.tokens.map Token.bare).dropLast ∧
        front.map Token.bare = piece.map Token.bare ∧ close.kind = .closeCurly ∧
        finish.kind = .eof := by
  have hle : (head ++ "\n" ++ source).utf8ByteSize ≤ Span.maxOffset := by
    rw [String.utf8ByteSize_append, String.utf8ByteSize_append] at hsize
    omega
  obtain ⟨joined, hjoined, opening, front, finish, hsplit, hopening, hfront, -⟩ :=
    ofSource_behind hhead hsource hle hstop name
  obtain ⟨tokens, ht, hb⟩ := Tokens.ofSource_joined hjoined ofSource_close hsize name
  rw [hsplit, ← List.append_assoc, List.map_append, List.map_singleton, List.dropLast_concat,
    List.map_append, List.append_assoc] at hb
  obtain ⟨opening', more, hsplit', hopening', hmore⟩ := List.map_eq_append_iff.1 hb
  obtain ⟨front', last, rfl, hfront', hlast⟩ := List.map_eq_append_iff.1 hmore
  obtain ⟨close, rest, rfl, hclose, hrest⟩ := List.map_eq_cons_iff.1 hlast
  obtain ⟨finish', rfl, hfinish⟩ := List.map_eq_singleton_iff.1 hrest
  exact ⟨tokens, ht, opening', front', close, finish', hsplit', hopening'.trans hopening,
    hfront'.trans hfront, congrArg Token.kind hclose, congrArg Token.kind hfinish⟩

end

/-- What a module is that one statement fills. -/
theorem ofSource_of_yields {source file : String} {tokens : Tokens} {first : Token}
    {more : List Token} {P : NodeId → State → Prop}
    (ht : Tokens.ofSource source file {} = .ok tokens) (htokens : tokens.tokens = first :: more)
    (hfirst : first.kind ≠ .eof)
    (h : ∀ n, (Rule.runWith (n + 6) (.form .statement) (.standard file {})
      { current := first, ahead := more }).Yields P)
    (hP : ∀ id s, P id s → s.hasTokens = false) :
    ∃ id s, P id s ∧ Parsed.ofSource source file {} =
      { tree := { file, nodes := s.nodes, statements := [id], trivia := tokens.trivia } } := by
  have hstart : State.start tokens.tokens = { current := first, ahead := more } := by
    rw [State.start, State.ended_of_inOrder (Tokens.ofSource_inOrder ht), htokens]
  rw [Parsed.ofSource_eq_ofTokens ht]
  refine ofTokens_of_yields (fun n => hstart ▸ h n) ?_ hP
  rw [hstart]
  exact State.hasTokens_of_ne hfirst

/-! ## The three wrappings -/

section
variable {source file : String} {piece : List Token} {stop : Token} {trivia : Array Trivia}
  {ids : List NodeId} {c : State} (hstop : stop.kind = .eof) (h : Itemized file piece ids c)
  (ht : Tokens.ofSource source file {} = .ok ⟨piece ++ [stop], trivia⟩) (file' : String)

include hstop h ht

theorem ofSource_batch
    (hs : ("yield int \x7b" ++ "\n" ++ source ++ "\n" ++ "\x7d").utf8ByteSize ≤ Span.maxOffset) :
    ∃ id s trivia, BatchOf c.nodes ids id s ∧
      Parsed.ofSource ("yield int \x7b" ++ "\n" ++ source ++ "\n" ++ "\x7d") file' {} =
        { tree := { file := file', nodes := s.nodes, statements := [id], trivia } } := by
  obtain ⟨tokens, htokens, opening, front, close, finish, hsplit, hopening, hfront, hclose, hfinish⟩ :=
    ofSource_between ofSource_batchHead ht hs hstop file'
  obtain ⟨p₁, _, rfl, h₁⟩ := Token.cons_of_bare hopening
  obtain ⟨p₂, _, rfl, h₂⟩ := Token.cons_of_bare h₁
  obtain ⟨p₃, _, rfl, h₃⟩ := Token.cons_of_bare h₂
  obtain rfl := List.map_eq_nil_iff.1 h₃
  obtain ⟨id, s, hbatch, hparsed⟩ := ofSource_of_yields htokens hsplit (by simp)
    (fun n => batch_braced file' h hfront hfinish hclose n) fun _ _ hs => hs.ended
  exact ⟨id, s, _, hbatch, hparsed⟩

theorem ofSource_batchColon
    (hs : ("yield int:" ++ "\n" ++ source).utf8ByteSize ≤ Span.maxOffset) :
    ∃ id s trivia, BatchOf c.nodes ids id s ∧
      Parsed.ofSource ("yield int:" ++ "\n" ++ source) file' {} =
        { tree := { file := file', nodes := s.nodes, statements := [id], trivia } } := by
  obtain ⟨tokens, htokens, opening, front, finish, hsplit, hopening, hfront, hfinish⟩ :=
    ofSource_behind ofSource_batchColonHead ht hs hstop file'
  obtain ⟨p₁, _, rfl, h₁⟩ := Token.cons_of_bare hopening
  obtain ⟨p₂, _, rfl, h₂⟩ := Token.cons_of_bare h₁
  obtain ⟨p₃, _, rfl, h₃⟩ := Token.cons_of_bare h₂
  obtain rfl := List.map_eq_nil_iff.1 h₃
  obtain ⟨id, s, hbatch, hparsed⟩ := ofSource_of_yields htokens hsplit (by simp)
    (fun n => batch_colon file' h hfront hfinish n) fun _ _ hs => hs.ended
  exact ⟨id, s, _, hbatch, hparsed⟩

theorem ofSource_function
    (hs : ("let f() \x7b" ++ "\n" ++ source ++ "\n" ++ "\x7d").utf8ByteSize ≤ Span.maxOffset) :
    let function := Parsed.ofSource ("let f() \x7b" ++ "\n" ++ source ++ "\n" ++ "\x7d") file' {}
    function.errors = [] ∧ function.tree.moduleBindings? = some ["f"] := by
  obtain ⟨tokens, htokens, opening, front, close, finish, hsplit, hopening, hfront, hclose, hfinish⟩ :=
    ofSource_between ofSource_functionHead ht hs hstop file'
  obtain ⟨p₁, _, rfl, h₁⟩ := Token.cons_of_bare hopening
  obtain ⟨p₂, _, rfl, h₂⟩ := Token.cons_of_bare h₁
  obtain ⟨p₃, _, rfl, h₃⟩ := Token.cons_of_bare h₂
  obtain ⟨p₄, _, rfl, h₄⟩ := Token.cons_of_bare h₃
  obtain ⟨p₅, _, rfl, h₅⟩ := Token.cons_of_bare h₄
  obtain rfl := List.map_eq_nil_iff.1 h₅
  obtain ⟨id, s, ⟨-, name, signature, body, span, hname, hroot⟩, hparsed⟩ :=
    ofSource_of_yields htokens hsplit (by simp)
      (fun n => function_braced file' h hfront hfinish hclose n) fun _ _ hs => hs.1
  intro function
  have hfunction : function = _ := hparsed
  rw [hfunction]
  refine ⟨rfl, ?_⟩
  simp only [Tree.moduleBindings?, Tree.scopeBindings?, List.mapM_cons, Tree.statementNames_succ,
    Tree.get?, hroot]
  simp [Shape.statementNames, hname]

end

end Parse

open Parse

/-- A source without errors and without a header can be put under batch attributes, in braces or
behind a colon, and it binds the same names there, in the same order: the source that it becomes has
no errors either and is one statement.  In the braces of a function it binds nothing outside. -/
theorem Parsed.ofSource_wrapped {source file : String} (h : (ofSource source file {}).errors = [])
    (hh : (ofSource source file {}).tree.header = none) :
    ∃ names, (ofSource source file {}).tree.moduleBindings? = some names ∧
      (∀ text file', text = "yield int \x7b" ++ "\n" ++ source ++ "\n" ++ "\x7d" ∨
          text = "yield int:" ++ "\n" ++ source →
        text.utf8ByteSize ≤ Options.byteLimit {} →
        let batch := ofSource text file' {}
        batch.errors = [] ∧ batch.tree.header = none ∧ batch.tree.moduleBindings? = some names ∧
          ∃ id attributes body, batch.tree.statements = [id] ∧
            (batch.tree.get? id).map Node.shape = some (.batchAttributes attributes body)) ∧
      ∀ text file', text = "let f() \x7b" ++ "\n" ++ source ++ "\n" ++ "\x7d" →
        text.utf8ByteSize ≤ Options.byteLimit {} →
        let function := ofSource text file' {}
        function.errors = [] ∧ function.tree.moduleBindings? = some ["f"] := by
  obtain ⟨piece, stop, trivia, ids, c, ht, hstop, hitems, htree⟩ := itemized_of_ofSource h hh
  obtain ⟨names, hnames⟩ := Forest.exists_moduleBindings (ofSource_forest source file {})
  have hlimit : Options.byteLimit {} = Span.maxOffset := Nat.min_self _
  refine ⟨names, hnames, fun text file' htext hsize => ?_, fun text file' htext hsize => ?_⟩
  · rw [hlimit] at hsize
    obtain ⟨id, s, trivia, hbatch, hparsed⟩ : ∃ id s trivia, BatchOf c.nodes ids id s ∧
        ofSource text file' {} =
          { tree := { file := file', nodes := s.nodes, statements := [id], trivia } } := by
      rcases htext with rfl | rfl
      · exact ofSource_batch hstop hitems ht file' hsize
      · exact ofSource_batchColon hstop hitems ht file' hsize
    obtain ⟨attributes, body, form, span, span', hroot, -⟩ := hbatch.root
    rw [hparsed]
    rw [htree] at hnames
    refine ⟨rfl, rfl, hbatch.moduleBindings rfl rfl hnames, id, attributes, body, rfl, ?_⟩
    exact congrArg (Option.map Node.shape) hroot
  · subst htext
    exact ofSource_function hstop hitems ht file' (hlimit ▸ hsize)

theorem Parsed.ofSource_wrapped_twice :
    let source := "yield a:let b=c"
    let text := "yield int \x7b" ++ "\n" ++ source ++ "\n" ++ "\x7d"
    (ofSource source "in.sm" {}).errors = [] ∧ (ofSource source "in.sm" {}).tree.header = none ∧
      (text.utf8ByteSize ≤ Options.byteLimit {}) ∧
      (ofSource text "out.sm" {}).errors = [] ∧
      (ofSource text "out.sm" {}).tree.moduleBindings? = some ["b"] := by
  intro source text
  have he : (ofSource source "in.sm" {}).errors = [] := by decide +kernel
  have hh : (ofSource source "in.sm" {}).tree.header = none := by decide +kernel
  have hb : (ofSource source "in.sm" {}).tree.moduleBindings? = some ["b"] := by decide +kernel
  have hs : text.utf8ByteSize ≤ Options.byteLimit {} := by decide
  obtain ⟨names, hnames, hbatch, -⟩ := ofSource_wrapped he hh
  obtain rfl := Option.some.inj (hb.symm.trans hnames)
  obtain ⟨htext, -, hbindings, -⟩ := hbatch text "out.sm" (.inl rfl) hs
  exact ⟨he, hh, hs, htext, hbindings⟩

end Smaug
