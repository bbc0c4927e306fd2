import Mathlib
import Smaug.Proofs.Parse.Cut.Lookahead
import Smaug.Proofs.Parse.Lossless
import Smaug.Proofs.Token.Cut

/-! # Statements by themselves

The text under a top-level statement is a module of its own.  Its tokens are those the statement was
read from, so it is read again, up to the end of the text; and nothing of the nodes built for it
tells where it stood.
-/

namespace Smaug

namespace Parse

open Grammar

def StartsStatement : Meaning := fun rule s _ _ =>
  rule = .form .statement → (Table.statements s.kind).isSome

theorem statement_starts {setup : Setup} (ht : setup.table = .standard) {s s' : State} {id : NodeId}
    (h : (Rule.form .statement).parse setup s = .done id s') :
    (Table.statements s.kind).isSome := by
  have hp {maxDepth : Nat} {rule : Rule} {s s' : State} {id : NodeId}
      (h : Production StartsStatement maxDepth rule s id s') : StartsStatement rule s id s' := by
    rintro rfl
    cases h with
    | statement hs => rw [hs]; rfl
  have hs : StartsStatement (.form .statement) s id s' := parse_done ht hp trivial h
  exact hs rfl

theorem not_isWord_of_statements {token : Token} (h : (Table.statements token.kind).isSome)
    (word : String) : token.isWord word = false := by
  have hk : token.kind ≠ .identifier := by
    rintro hk
    rw [hk] at h
    cases h
  simp [Token.isWord, hk]

/-- A statement that reaches to the end of the input is all there is. -/
theorem ofTokens_single {tokens : Tokens} {file : String} {options : Options} {s : State}
    {id : NodeId}
    (h : (Rule.form .statement).parse (.standard file options) (.start tokens.tokens) = .done id s)
    (ht : (State.start tokens.tokens).hasTokens) (he : s.hasTokens = false) :
    Parsed.ofTokens tokens file options =
      { tree := { file, nodes := s.nodes, statements := [id], trivia := tokens.trivia } } := by
  have hm := not_isWord_of_statements (statement_starts rfl h) "module"
  unfold Parsed.ofTokens
  simp only [header_none hm]
  rw [moduleBody, State.remaining, topLevel_statement ht h, topLevel_end he]
  rfl

/-- A statement stands where it would stand at the start of a text of its own. -/
theorem Framed.start {tokens alone rest : List Token} {stop : Token} {s : State}
    (ho : InOrder 0 tokens) (hk : Kept (.start tokens) s) (hs : stop.kind = .eof)
    (ha : ∀ token ∈ alone, token.kind ≠ .eof)
    (hp : s.tokens = alone.map (Token.shift s.current.span.start) ++ rest) :
    Framed ⟨s.current.span.start, s.nodes.toList, rest⟩ s (.start (alone ++ [stop])) where
  ended := (State.start_ended tokens).grow hk.toGrown
  tokens := by
    refine ⟨alone, stop, ?_, hs, ha, hp⟩
    rw [State.start_tokens, State.ended, List.getLast?_concat]
    exact if_pos hs
  nodes := by simp [State.start_nodes]
  depth := by rw [hk.depth, State.start_depth, State.start_depth]
  lastStop := by
    obtain ⟨before, ht, -, hl⟩ := hk.tokens
    rw [State.start_tokens, State.ended_of_inOrder ho] at ht
    rw [ht] at ho
    have hle := (ho.drop (List.cons_ne_nil _ _)).le_of_mem List.mem_cons_self
    rw [State.start_lastStop, Nat.zero_add, hl, State.start_lastStop]
    exact Nat.max_eq_right hle

/-- A statement is read again from the text it was read from, wherever that stood. -/
theorem statement_alone {source file : String} {tokens : Tokens}
    (ht : Tokens.ofSource source file {} = .ok tokens) {s s' : State}
    (hk : Kept (.start tokens.tokens) s) {id : NodeId}
    (h : (Rule.form .statement).parse (.standard file {}) s = .done id s') :
    ∃ text, (s'.spanFrom s.current.span.start).text? source = some text ∧
      ∀ file', ∃ nodes root trivia,
        Parsed.ofSource text file' {} =
          { tree := { file := file', nodes, statements := [root], trivia } } ∧
        id = root + s.nodes.size ∧
        s'.nodes.toList =
          s.nodes.toList ++ nodes.toList.map (Node.shift s.nodes.size s.current.span.start) := by
  have ho := Tokens.ofSource_inOrder ht
  have he := (State.start_ended tokens.tokens).grow hk.toGrown
  obtain ⟨before, htokens, -⟩ := hk.tokens
  obtain ⟨passed, hpassed, hp, hl⟩ := (kept_of_done h).tokens
  rw [State.start_tokens, State.ended_of_inOrder ho, hpassed] at htokens
  have hlt := passes (Rule.form .statement).parse rfl he h
  obtain ⟨first, more, rfl⟩ : ∃ first more, passed = first :: more := by
    rw [← State.length_tokens, ← State.length_tokens, hpassed, List.length_append] at hlt
    exact List.exists_cons_of_length_pos (by omega)
  obtain ⟨rfl, -⟩ := List.cons_eq_cons.1 (show s.current :: s.ahead = _ from hpassed)
  have hin : InOrder (stopAfter 0 before) (s.current :: more ++ s'.tokens) :=
    (htokens ▸ ho).drop (List.cons_ne_nil _ _)
  have hspan : s'.spanFrom s.current.span.start =
      ⟨s.current.span.start, stopAfter 0 (s.current :: more)⟩ := by
    have hstart := hin.start_lt_stop List.mem_cons_self (hp _ List.mem_cons_self)
    have hstop := hin.stop_le_stopAfter hp List.mem_cons_self
    rw [Lexed.stopAfter_cons_eq _ 0] at hl hstop
    rw [State.spanFrom, hl, Nat.max_eq_left (by omega)]
  obtain ⟨text, alone, stop, htext, halone, hstop, hsource⟩ :=
    Tokens.ofSource_piece ht htokens rfl hp
  refine ⟨text, hspan ▸ htext, fun file' => ?_⟩
  obtain ⟨trivia, hsource⟩ := hsource file'
  rw [halone] at hpassed hp
  have hkinds : ∀ token ∈ alone, token.kind ≠ .eof := fun token ht =>
    hp (token.shift s.current.span.start) (List.mem_map_of_mem ht)
  have hs := Framed.start ho hk hstop hkinds hpassed
  have hsetup : (Setup.standard file {}).Alike (.standard file' {}) := ⟨rfl, rfl⟩
  obtain ⟨root, c, hd, hid, hs'⟩ := statement_framed rfl hsetup hs h (Nat.le_refl _)
  have hend : c.hasTokens = false := by simp [State.hasTokens, (hs'.outside (Nat.le_refl _)).1]
  refine ⟨c.nodes, root, trivia, ?_, hid, hs'.nodes⟩
  rw [Parsed.ofSource_eq_ofTokens hsource]
  exact ofTokens_single hd (hs.inside hlt).2 hend

end Parse

open Parse

theorem getElem?_shifted {nodes more : Array Node} {before : List Node} {base offset : Nat}
    (hb : before.length = base)
    (h : more.toList = before ++ nodes.toList.map (Node.shift base offset)) {i : Nat} {node : Node}
    (hi : nodes[i]? = some node) : more[i + base]? = some (node.shift base offset) := by
  rw [← Array.getElem?_toList] at hi ⊢
  rw [h, List.getElem?_append_right (by omega), List.getElem?_map, hb, Nat.add_sub_cancel, hi]
  rfl

/-- The text under a statement at the top level is a module of its own, with no header and this one
statement: what is below the statement in the whole tree is the arena of its own tree, only further
on in the arena and in the source. -/
theorem Parsed.ofSource_alone (source file : String) :
    let tree : Tree := (ofSource source file {}).tree
    ∀ id ∈ tree.statements, ∃ node text, tree.get? id = some node ∧
      node.span.text? source = some text ∧ ∀ file',
        let alone := ofSource text file' {}
        alone.errors = [] ∧ alone.tree.header = none ∧
          ∃ root base, alone.tree.statements = [root] ∧ id = root + base ∧
            Smaug.postOrder? tree.nodes tree.nodes.size id =
              some ((List.range alone.tree.nodes.size).map (· + base)) ∧
            ∀ i < alone.tree.nodes.size,
              tree.get? (i + base) = (alone.tree.get? i).map (Node.shift base node.span.start) := by
  intro tree id hid
  cases ht : Tokens.ofSource source file {} with
  | error errors =>
    simp [tree, ofSource, ht] at hid
  | ok tokens =>
    rcases ofTokens_reached tokens file {} with h | ⟨s, header, ids, hr, h⟩
    · simp [tree, ofSource_eq_ofTokens ht, h] at hid
    · have htree : tree = _ := (congrArg Parsed.tree (ofSource_eq_ofTokens ht)).trans h
      rw [htree] at hid ⊢
      obtain ⟨s₁, s₂, hk, -, hd, hg⟩ := hr.statement_mem hid
      obtain ⟨node, hn, hspan⟩ := statement_spans rfl hd
      obtain ⟨text, htext, halone⟩ := statement_alone ht hk hd
      refine ⟨node, text, hg.getElem? hn, hspan ▸ htext, fun file' => ?_⟩
      obtain ⟨nodes, root, trivia, hparsed, rfl, hnodes⟩ := halone file'
      have hforest : Forest nodes [root] := by
        have hf := ofSource_forest text file' {}
        rwa [hparsed] at hf
      rw [hparsed]
      have hshift {i : NodeId} {inner : Node} (hi : nodes[i]? = some inner) :
          s.nodes[i + s₁.nodes.size]? = some (inner.shift s₁.nodes.size node.span.start) := by
        rw [hspan]
        exact hg.getElem? (getElem?_shifted rfl hnodes hi)
      refine ⟨rfl, rfl, root, s₁.nodes.size, rfl, rfl, ?_, fun i hi => ?_⟩
      · have hle : nodes.size ≤ s.nodes.size := by
          have hsize := congrArg List.length hnodes
          have := hg.size_le
          simp only [Array.length_toList, List.length_append, List.length_map] at hsize
          omega
        exact postOrder?_mono id hle (postOrder?_shift hshift hforest.singleton)
      · change s.nodes[_]? = Option.map _ nodes[i]?
        rw [Array.getElem?_eq_getElem hi]
        exact hshift (Array.getElem?_eq_getElem hi)

theorem Parsed.ofSource_alone_yield :
    let tree := (ofSource "yield a \x7d do b" "two.sm" {}).tree
    1 ∈ tree.statements ∧ ∃ node text, tree.get? 1 = some node ∧
      node.span.text? "yield a \x7d do b" = some text ∧
        (ofSource text "one.sm" {}).errors = [] ∧
          ∃ root, (ofSource text "one.sm" {}).tree.statements = [root] := by
  intro tree
  have hm : 1 ∈ tree.statements := by decide +kernel
  obtain ⟨node, text, hn, htext, h⟩ := ofSource_alone "yield a \x7d do b" "two.sm" 1 hm
  obtain ⟨he, -, root, -, hr, -⟩ := h "one.sm"
  exact ⟨hm, node, text, hn, htext, he, root, hr⟩

end Smaug
