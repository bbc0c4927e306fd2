import Mathlib
import Smaug.Proofs.Parse.Cut.Module
import Smaug.Proofs.Parse.Depth.Limit
import Smaug.Proofs.Parse.Embed.Lookahead
import Smaug.Proofs.Tree.Bindings

/-! # Modules that are put into an input

The statements of a module without errors are a list as it may stand between braces too.  Where the
tokens of the module stand there, the statements that are read are copies of those of the module.
-/

namespace Smaug.Parse

/-! ## Statements up to a closing brace or the end -/

section
variable {item : Parse NodeId} {items : List NodeId} {setup : Setup} {s s' : State}

theorem nextItem_end (ht : s.hasTokens = false) :
    collectTurn (nextItem item) items setup s = .done (.finish items.reverse) s := by
  simp [collectTurn, nextItem, Bind.bind, Parse.bind, look, ht, Pure.pure, Parse.pure]

theorem nextItem_item {id : NodeId} (ht : s.hasTokens) (hk : s.kind ≠ .closeCurly)
    (h : item setup s = .done id s') :
    collectTurn (nextItem item) items setup s = .done (.again (id :: items)) s' := by
  simp [collectTurn, nextItem, Bind.bind, Parse.bind, look, ht, hk, h, Pure.pure, Parse.pure]

/-- Where there will be no error, a statement is read, unless the input ends. -/
theorem exists_statement_of_topLevel (htable : setup.table = .standard) {strict : Bool}
    {turns : Nat} {ids : Array NodeId} (he : s.Ended) (ht : s.hasTokens)
    (h : (topLevel setup strict (turns + 1) s ids #[]).errors = #[]) :
    ∃ id s₁, (Rule.form .statement).parse setup s = .done id s₁ := by
  have hset : ((Rule.form .statement).parse setup s).IsSettled :=
    parse_isSettled htable he trivial (List.forall_mem_nil _)
  match ho : (Rule.form .statement).parse setup s with
  | .done id s₁ => exact ⟨id, s₁, rfl⟩
  | .stopped (.error error) s₁ =>
    have hmem : error ∈ (topLevel setup strict (turns + 1) s ids #[]).errors := by
      rw [topLevel, if_pos ht, ho]
      dsimp only
      split
      · exact Array.mem_push_self
      · split
        · exact Array.mem_push_self
        · exact mem_topLevel_errors Array.mem_push_self
    rw [h] at hmem
    exact absurd hmem (Array.not_mem_empty _)
  | .stopped (.missingNode _) _ | .stopped .exhausted _ =>
    rw [ho] at hset
    exact hset.elim

/-- What is read at the top level without an error could be the items before a closing brace. -/
theorem iterate_of_topLevel (htable : setup.table = .standard) {strict : Bool}
    {turns turns' : Nat} {ids : Array NodeId} (he : s.Ended) (hn : s.remaining ≤ turns)
    (hn' : s.remaining ≤ turns') (items : List NodeId)
    (h : (topLevel setup strict turns s ids #[]).errors = #[]) :
    ∃ more c,
      iterate (collectTurn (nextItem (Rule.form .statement).parse)) turns' items setup s =
        .done (items.reverse ++ more) c ∧ c.kind = .eof ∧
      (topLevel setup strict turns s ids #[]).state = some c ∧
      (topLevel setup strict turns s ids #[]).statements.toList = ids.toList ++ more := by
  induction turns generalizing s turns' ids items with
  | zero => exact absurd hn (Nat.not_le_of_lt s.remaining_pos)
  | succ turns ih =>
    obtain ⟨turns', rfl⟩ : ∃ n, turns' = n + 1 :=
      ⟨turns' - 1, by have := s.remaining_pos; omega⟩
    cases ht : s.hasTokens with
    | false =>
      rw [topLevel_end ht]
      refine ⟨[], s, ?_, by simpa [State.hasTokens] using ht, rfl, by simp⟩
      rw [iterate, bind_done.2 ⟨_, _, nextItem_end ht, rfl⟩, List.append_nil]
    | true =>
      obtain ⟨id, s₁, ho⟩ := exists_statement_of_topLevel htable he ht h
      have hk : s.kind ≠ .closeCurly := fun hk => by
        have := statement_starts htable ho
        rw [hk] at this
        cases this
      have hlt := passes (Rule.form .statement).parse htable he ho
      rw [topLevel_statement ht ho] at h ⊢
      have hturns : s₁.remaining ≤ turns' := by omega
      obtain ⟨more, c, hi, hc, hs, hids⟩ := ih (he.grow (kept_of_done ho).toGrown) (by omega)
        hturns (id :: items) h
      refine ⟨id :: more, c, ?_, hc, hs, by simp [hids]⟩
      rw [iterate, bind_done.2 ⟨_, _, nextItem_item ht hk ho, hi⟩, List.reverse_cons,
        List.append_assoc, List.singleton_append]

/-- The statements of a module without errors and without a header. -/
theorem items_of_ofTokens {tokens : Tokens} {file : String} {options : Options}
    (h : (Parsed.ofTokens tokens file options).errors = [])
    (hh : (Parsed.ofTokens tokens file options).tree.header = none) :
    ∃ ids c,
      bracedItems (Rule.form .statement).parse (.standard file options) (.start tokens.tokens) =
        .done ids c ∧ c.kind = .eof ∧
      (Parsed.ofTokens tokens file options).tree =
        { file, nodes := c.nodes, statements := ids, trivia := tokens.trivia } := by
  have he := State.start_ended tokens.tokens
  have hset := header_isSettled (show (Setup.standard file options).table = .standard from rfl) he
  match ho : header (.standard file options) (.start tokens.tokens) with
  | .done first s =>
    simp only [Parsed.ofTokens, ho, Parsed.ofProgress, Array.toList_eq_nil_iff] at h hh ⊢
    cases header_done ho with
    | none hm =>
      obtain ⟨ids, c, hi, hc, hs, hids⟩ := iterate_of_topLevel rfl he (Nat.le_refl _)
        (Nat.le_succ _) [] h
      refine ⟨ids, c, hi, hc, ?_⟩
      rw [moduleBody, hs]
      simpa [moduleBody] using hids
    | some hm hp =>
      have he' := he.grow (kept_of_done ho).toGrown
      obtain ⟨_, c, _, _, hs, _⟩ := iterate_of_topLevel rfl he' (Nat.le_refl _)
        (Nat.le_refl _) [] h
      rw [moduleBody, hs] at hh
      cases hh
  | .stopped (.error error) s =>
    have hmem : error ∈ (Parsed.ofTokens tokens file options).errors := by
      simp only [Parsed.ofTokens, ho]
      split
      · exact List.mem_singleton_self _
      · exact Array.mem_toList_iff.2 (mem_topLevel_errors (by simp))
    rw [h] at hmem
    cases hmem
  | .stopped (.missingNode _) _ | .stopped .exhausted _ =>
    rw [ho] at hset
    exact hset.elim

theorem nextItem_done {item : Parse NodeId} {next : Option (NodeId × Bool)}
    (h : nextItem item setup s = .done next s') :
    next = none ∧ s' = s ∨ ∃ id, next = some (id, true) ∧ item setup s = .done id s' := by
  obtain ⟨b, _, hb, h⟩ := bind_done.1 h
  obtain ⟨rfl, rfl⟩ := look_done.1 hb
  split at h
  · obtain ⟨id, s₁, hi, h⟩ := bind_done.1 h
    obtain ⟨rfl, rfl⟩ := pure_done.1 h
    exact .inr ⟨id, rfl, hi⟩
  · obtain ⟨rfl, rfl⟩ := pure_done.1 h
    exact .inl ⟨rfl, rfl⟩

/-- The items of a list were read one after the other. -/
theorem collected_of_bracedItems {item : Parse NodeId} {ids : List NodeId}
    (h : bracedItems item setup s = .done ids s') :
    Collected (fun _ => True)
      (fun s id more s' => item setup s = .done id s' ∧ more = true) s ids s' := by
  refine collect_done (fun h => ?_) (fun h => ?_) h
  · rcases nextItem_done h with ⟨-, rfl⟩ | ⟨id, hn, -⟩
    · exact ⟨trivial, rfl⟩
    · cases hn
  · rcases nextItem_done h with ⟨hn, -⟩ | ⟨id, hn, hi⟩
    · cases hn
    · cases hn
      exact ⟨hi, rfl⟩

/-- A module of one statement without errors is that statement up to the end of the input. -/
theorem single_of_ofTokens {tokens : Tokens} {file : String} {options : Options} {id : NodeId}
    (h : (Parsed.ofTokens tokens file options).errors = [])
    (hh : (Parsed.ofTokens tokens file options).tree.header = none)
    (hs : (Parsed.ofTokens tokens file options).tree.statements = [id]) :
    ∃ c, (Rule.form .statement).parse (.standard file options) (.start tokens.tokens) =
        .done id c ∧ c.kind = .eof ∧
      (Parsed.ofTokens tokens file options).tree.nodes = c.nodes := by
  obtain ⟨ids, c, hd, hc, htree⟩ := items_of_ofTokens h hh
  rw [htree] at hs ⊢
  obtain rfl : ids = [id] := hs
  cases collected_of_bracedItems hd with
  | last h => cases h.2
  | cons h hmore =>
    cases hmore with
    | nil => exact ⟨c, h.1, hc, rfl⟩

/-- A list of items that ends with the input starts there or with a statement. -/
theorem starts_of_bracedItems (ht : setup.table = .standard) {ids : List NodeId}
    (h : bracedItems (Rule.form .statement).parse setup s = .done ids s') (he : s'.kind = .eof) :
    s.kind = .eof ∨ (Table.statements s.kind).isSome := by
  cases collected_of_bracedItems h with
  | nil => exact .inl he
  | last hi => exact .inr (statement_starts ht hi.1)
  | cons hi _ => exact .inr (statement_starts ht hi.1)

end

/-! ## The statements of a module within another -/

/-- A step that always settles yields what it yields if it yields anything. -/
theorem Outcome.Yields.of_isSettled {P : α → State → Prop} {outcome : Outcome α}
    (h : outcome.Yields P) (hs : outcome.IsSettled) :
    ∃ value s, outcome = .done value s ∧ P value s := by
  cases h with
  | done h => exact ⟨_, _, rfl, h⟩
  | exhausted => exact hs.elim

theorem bind_bind_apply {step : Parse α} {next : α → Parse β} {last : β → Parse γ} (setup : Setup)
    (s : State) :
    ((step >>= next) >>= last) setup s = (step >>= fun a => next a >>= last) setup s := by
  change Parse.bind (Parse.bind step next) last setup s =
    Parse.bind step (fun a => Parse.bind (next a) last) setup s
  cases h : step setup s <;> simp [Parse.bind, h]

/-- A statement that is read in any depth of calls, up to the end of the input, is the module. -/
theorem ofTokens_of_yields {tokens : Tokens} {file : String} {options : Options}
    {P : NodeId → State → Prop}
    (h : ∀ n, (Rule.runWith (n + 6) (.form .statement) (.standard file options)
      (.start tokens.tokens)).Yields P)
    (ht : (State.start tokens.tokens).hasTokens) (hP : ∀ id s, P id s → s.hasTokens = false) :
    ∃ id s, P id s ∧ Parsed.ofTokens tokens file options =
      { tree := { file, nodes := s.nodes, statements := [id], trivia := tokens.trivia } } := by
  have hfuel : Rule.fuel (.standard file options) (.start tokens.tokens) =
      Rule.fuel (.standard file options) (.start tokens.tokens) - 6 + 6 := by
    unfold Rule.fuel
    omega
  have hyields :
      ((Rule.form .statement).parse (.standard file options) (.start tokens.tokens)).Yields P := by
    rw [Rule.parse, hfuel]
    exact h _
  obtain ⟨id, s, hd, hp⟩ := hyields.of_isSettled
    (parse_isSettled rfl (State.start_ended _) trivial (List.forall_mem_nil _))
  exact ⟨id, s, hp, ofTokens_single hd ht (hP id s hp)⟩

/-- Where the tokens of a piece come next, a parse stands at the piece. -/
theorem Embedded.here {f : Site} {s c : State} {front piece : List Token} {stop : Token}
    (hs : s.tokens = front ++ f.next :: f.more) (hc : c.tokens = piece ++ [stop])
    (hstop : stop.kind = .eof) (hp : ∀ token ∈ piece, token.kind ≠ .eof)
    (hb : front.map Token.bare = piece.map Token.bare) (hn : s.nodes.toList = f.before)
    (hn' : c.nodes = #[]) (hd : s.depth = c.depth + f.depth) : Embedded f s c where
  tokens := ⟨front, piece, stop, hs, hc, hstop, hp, hb⟩
  nodes := ⟨[], by rw [hn, List.append_nil], by simp [hn']⟩
  depth := hd

theorem State.ended_of_eof {stop : Token} (hstop : stop.kind = .eof) (piece : List Token) :
    State.ended (piece ++ [stop]) = piece ++ [stop] := by
  rw [State.ended, List.getLast?_concat]
  exact if_pos hstop

theorem State.start_tokens_of_eof {stop : Token} (hstop : stop.kind = .eof) (piece : List Token) :
    (State.start (piece ++ [stop])).tokens = piece ++ [stop] := by
  rw [State.start_tokens, State.ended_of_eof hstop]

theorem Embedded.start {f : Site} {s : State} {front piece : List Token} {stop : Token}
    (hs : s.tokens = front ++ f.next :: f.more) (hstop : stop.kind = .eof)
    (hp : ∀ token ∈ piece, token.kind ≠ .eof) (hb : front.map Token.bare = piece.map Token.bare)
    (hn : s.nodes.toList = f.before) (hd : s.depth = f.depth) :
    Embedded f s (.start (piece ++ [stop])) :=
  .here hs (State.start_tokens_of_eof hstop _) hstop hp hb hn (State.start_nodes _)
    (by rw [hd, State.start_depth, Nat.zero_add])

section
variable {f : Site} {setup setup' : Setup} {s c c' : State} {ids : List NodeId}

theorem embeds_statement_parse (f : Site) (n : Nat) {Q : NodeId → State → Prop}
    (hq : ∀ i c, Q i c → f.Admits i c) :
    Embeds f Q (Rule.runWith n (.form .statement)) (Rule.form .statement).parse where
  yields {_ setup'} hsetup {_ c _ _} hs hd h :=
    have hstatement : Embeds f Q (Rule.runWith n (.form .statement))
        (Rule.runWith (Rule.fuel setup' c) (.form .statement)) := embeds_run hq
    hstatement.yields hsetup hs hd h

/-- The statements of a piece are read within an input where a list of statements ends there. -/
theorem bracedItems_embedded (hf : f.Ends) (hsetup : f.Suits setup setup') (hs : Embedded f s c)
    (hd : bracedItems (Rule.form .statement).parse setup' c = .done ids c') (n : Nat) :
    (bracedItems (Rule.runWith n (.form .statement)) setup s).Yields fun ids' s' =>
      ids' = ids.map (· + f.before.length) ∧ Embedded f s' c' := by
  have hitem := embeds_statement_parse f n (Q := When f.Ends) fun i c h => h.admits i c
  have hitems := embeds_bracedItems (p := f.Ends) id (h := hitem)
  refine (hitems.yields hsetup hs hd fun _ => hf).mono ?_
  rintro ids' s' ⟨hl, hs'⟩
  have hl : ids'.map (fun i => i) = ids.map (· + f.before.length) := hl
  exact ⟨by rwa [List.map_id'] at hl, hs'⟩

/-- So they are in braces, and the closing brace is passed. -/
theorem bracedStatements_embedded (hn : f.next.kind = .closeCurly) (hsetup : f.Suits setup setup')
    (hs : Embedded f s c)
    (hd : bracedItems (Rule.form .statement).parse setup' c = .done ids c') (hc : c'.kind = .eof)
    (n : Nat) (construct : String) (opening : Span) :
    (bracedStatements (Rule.runWith n) construct opening setup s).Yields fun ids' s' =>
      ids' = ids.map (· + f.before.length) ∧ ∃ s₁, Embedded f s₁ c' ∧ s' = s₁.advance := by
  refine inside_yields _ _ _ (bind_yields (bracedItems_embedded (.inl hn) hsetup hs hd n) ?_)
  rintro ids' s₁ ⟨rfl, hs₁⟩
  have hk : s₁.kind = .closeCurly := by rw [State.kind, (hs₁.outside hc).1, hn]
  have hclose : expect .closeCurly setup s₁ = .done s₁.current s₁.advance :=
    expect_done.2 ⟨hk, rfl, rfl⟩
  refine bind_yields (P := fun _ s' => s' = s₁.advance) (hclose ▸ .done rfl) ?_
  rintro _ _ rfl
  exact .done ⟨rfl, s₁, hs₁, rfl⟩

end

end Smaug.Parse
