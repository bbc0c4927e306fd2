import Mathlib
import Smaug.Proofs.Parse.Forest
import Smaug.Proofs.Parse.Spans
import Smaug.Proofs.Token.Order
import Smaug.Proofs.Tree.Written

/-! # Nothing is lost

What the stack of a parse is written in, followed by the signs of the tokens left, is the same
before and after every move.  So a node is written in the signs of the tokens that were passed for
it, and where tokens stand in order these are the ones within its span.
-/

namespace Smaug

namespace Parse

open Grammar Relation

namespace State

def signs (s : State) : List Sign := s.tokens.flatMap Token.signs

def Ended (s : State) : Prop := ∃ last, s.tokens.getLast? = some last ∧ last.kind = .eof

theorem Ended.advance {s : State} (h : s.Ended) (ht : s.hasTokens) :
    s.tokens = s.current :: s.advance.tokens ∧ s.advance.Ended := by
  obtain ⟨last, hl, hk⟩ := h
  obtain ⟨current, ahead, nodes, depth, lastStop⟩ := s
  cases ahead with
  | nil =>
    obtain rfl : current = last := by simpa [tokens] using hl
    simp [hasTokens, kind, hk] at ht
  | cons next ahead =>
    have ha : (State.mk current (next :: ahead) nodes depth lastStop).advance =
        ⟨next, ahead, nodes, depth, current.span.stop⟩ := by
      simp only [State.advance, ht, if_true]
    rw [ha]
    exact ⟨rfl, last, by simpa [tokens] using hl, hk⟩

theorem start_tokens (tokens : List Token) : (start tokens).tokens = ended tokens := by
  have hne : ended tokens ≠ [] := by
    unfold ended
    split
    · simp
    · rename_i last hl
      split
      · rintro rfl
        cases hl
      · simp
  unfold start
  split
  · rename_i he
    exact he.symm
  · rename_i he
    exact absurd he hne

theorem ended_of_inOrder {start : Nat} {tokens : List Token} (h : InOrder start tokens) :
    ended tokens = tokens := by
  have ⟨last, hl, hk⟩ : ∃ last, tokens.getLast? = some last ∧ last.kind = .eof := by
    induction h with
    | last hk => exact ⟨_, rfl, hk⟩
    | cons _ _ _ h ih =>
      obtain ⟨last, hl, hk⟩ := ih
      exact ⟨last, by simp [List.getLast?_cons, hl], hk⟩
  simp [ended, hl, hk]

theorem start_lastStop (tokens : List Token) : (start tokens).lastStop = 0 := by
  unfold start
  split <;> rfl

theorem start_ended (tokens : List Token) : (start tokens).Ended := by
  rw [Ended, start_tokens]
  unfold ended
  split
  · exact ⟨_, rfl, rfl⟩
  · rename_i last hl
    split
    · rename_i hk
      exact ⟨last, hl, hk⟩
    · exact ⟨_, List.getLast?_concat, rfl⟩

end State

/-- The stack is written in what `input` has more than the tokens left. -/
structure Balanced (input : List Sign) (stack : List Slot) (s : State) : Prop where
  ended : s.Ended
  written : ∃ signs, rowWritten? s.nodes stack = some signs ∧ signs ++ s.signs = input

theorem Move.balanced {input : List Sign} {stack stack' : List Slot} {s s' : State}
    (h : Move (stack, s) (stack', s')) (hb : Balanced input stack s) :
    Balanced input stack' s' := by
  obtain ⟨he, signs, hw, hi⟩ := hb
  cases h with
  | shift ht =>
    obtain ⟨hs, he'⟩ := he.advance ht
    refine ⟨he', signs ++ s.current.signs, ?_, ?_⟩
    · rw [State.advance_nodes]
      exact rowWritten?_append.2 ⟨signs, s.current.signs, hw, rowWritten?_signs _ _, rfl⟩
    · rw [← hi, State.signs, State.signs, hs, List.flatMap_cons, List.append_assoc]
  | reduce shape span =>
    obtain ⟨a, b, ha, hb, rfl⟩ := rowWritten?_append.1 hw
    refine ⟨he, a ++ b, ?_, hi⟩
    have hn : rowWritten? (s.nodes.push ⟨shape, span⟩) [.node s.nodes.size] = some b := by
      simp [rowWritten?, Slot.written?, written?_push ⟨shape, span⟩ hb]
    exact rowWritten?_append.2 ⟨a, b, rowWritten?_push _ ha, hn, rfl⟩
  | reduceBare pattern value span =>
    obtain ⟨a, b, ha, hb, rfl⟩ := rowWritten?_append.1 hw
    refine ⟨he, a ++ b, ?_, hi⟩
    have hl : rowWritten? s.nodes ([.mark .letWord] ++ _) = some ([.mark .letWord] ++ b) :=
      rowWritten?_append.2 ⟨_, b, rfl, hb, rfl⟩
    have hn : rowWritten? (s.nodes.push ⟨.letVariable pattern value, span⟩)
        [.bare s.nodes.size] = some b := by
      simp [rowWritten?, Slot.written?, written?_push ⟨.letVariable pattern value, span⟩ hl]
    exact rowWritten?_append.2 ⟨a, b, rowWritten?_push _ ha, hn, rfl⟩
  | level => exact ⟨he, signs, hw, hi⟩

/-- A node is written in the signs of the tokens passed for it. -/
theorem Reads.written {s s' : State} {id : NodeId} (h : Reads [] s [.node id] s') (he : s.Ended)
    {passed : List Token} (hp : s.tokens = passed ++ s'.tokens) :
    written? s'.nodes s'.nodes.size id = some (passed.flatMap Token.signs) := by
  have hrun {c c' : List Slot × State} (h : ReflTransGen Move c c')
      (hb : Balanced s.signs c.1 c.2) : Balanced s.signs c'.1 c'.2 := by
    induction h with
    | refl => exact hb
    | tail _ hm ih => exact hm.balanced ih
  obtain ⟨-, signs, hw, hi⟩ := hrun (h []) ⟨he, [], rfl, rfl⟩
  have hs : signs = passed.flatMap Token.signs := by
    rw [State.signs, State.signs, hp, List.flatMap_append] at hi
    exact List.append_cancel_right hi
  subst hs
  simpa [rowWritten?, Slot.written?] using hw

/-! ## From tokens to nodes -/

/-- A node is written in the signs of some tokens in a row, and reaches over them. -/
inductive ReadFrom (tokens : List Token) (nodes : Array Node) (id : NodeId) : Prop
  | intro {before passed after : List Token} {first : Token} {node : Node}
      (ht : tokens = before ++ (passed ++ after)) (hb : ∀ t ∈ before, t.kind ≠ .eof)
      (hp : ∀ t ∈ passed, t.kind ≠ .eof) (hf : (passed ++ after).head? = some first)
      (hn : nodes[id]? = some node)
      (hs : node.span =
        ⟨first.span.start, max (stopAfter 0 (before ++ passed)) first.span.start⟩)
      (hw : written? nodes nodes.size id = some (passed.flatMap Token.signs))

theorem ReadFrom.grow {tokens : List Token} {s s' : State} {id : NodeId} (h : Grown s s')
    (hr : ReadFrom tokens s.nodes id) : ReadFrom tokens s'.nodes id := by
  obtain ⟨ht, hb, hp, hf, hn, hs, hw⟩ := hr
  exact ⟨ht, hb, hp, hf, h.getElem? hn, hs, written?_mono h.getElem? h.size_le hw⟩

theorem Reads.readFrom {s₀ s s' : State} {id : NodeId} (he : s.Ended) (h₀ : s₀.lastStop = 0)
    (hg : Grown s₀ s) (hk : Grown s s') (hr : Reads [] s [.node id] s')
    (hs : SpansBetween s id s') : ReadFrom s₀.tokens s'.nodes id := by
  obtain ⟨before, ht, hb, hl⟩ := hg.tokens
  obtain ⟨passed, ht', hp, hl'⟩ := hk.tokens
  obtain ⟨node, hn, hspan⟩ := hs
  have hf : (passed ++ s'.tokens).head? = some s.current := by
    rw [← ht']
    rfl
  refine ⟨by rw [ht, ht'], hb, hp, hf, hn, ?_, hr.written he ht'⟩
  · rw [hspan, State.spanFrom, hl', hl, h₀, stopAfter_append]

theorem State.Ended.grow {s s' : State} (h : Grown s s') (he : s.Ended) : s'.Ended := by
  obtain ⟨passed, ht, -⟩ := h.tokens
  obtain ⟨last, hl, hk⟩ := he
  refine ⟨last, ?_, hk⟩
  rw [ht, List.getLast?_append] at hl
  simpa [State.tokens] using hl

theorem Reached.readFrom {setup : Setup} (ht : setup.table = .standard) {tokens : List Token}
    {s : State} {header : Option NodeId} {ids : List NodeId}
    (h : Reached setup tokens s header ids) :
    ∀ id ∈ header.toList ++ ids, ReadFrom (State.start tokens).tokens s.nodes id := by
  induction h with
  | start => simp
  | header h hk =>
    intro id hid
    obtain rfl : _ = some id := by simpa using hid
    exact Reads.readFrom (State.start_ended tokens) (State.start_lastStop tokens) (.refl _)
      hk.toGrown h.reads h.spans
  | @statement s _ _ _ _ hr _ h ih =>
    intro id hid
    have hk := keeps (Rule.form .statement).parse setup s
    rw [h] at hk
    rw [← List.append_assoc] at hid
    rcases List.mem_append.1 hid with hid | hid
    · exact (ih id hid).grow hk.toGrown
    · obtain rfl := List.mem_singleton.1 hid
      exact Reads.readFrom (State.start_ended tokens |>.grow hr.grown) (State.start_lastStop tokens)
        hr.grown hk.toGrown (statement_reads ht h) (statement_spans ht h)
  | skip _ hk _ ih => exact fun id hid => (ih id hid).grow hk.toGrown

end Parse

theorem Parsed.ofSource_eq_ofTokens {source file : String} {options : Options} {tokens : Tokens}
    (ht : Tokens.ofSource source file options = .ok tokens) :
    Parsed.ofSource source file options = Parsed.ofTokens tokens file options := by
  rw [Parsed.ofSource, ht]

/-- What stands at the top level of a tree is written in the tokens within its span. -/
theorem Parsed.ofSource_written {source file : String} {options : Options} {tokens : Tokens}
    (ht : Tokens.ofSource source file options = .ok tokens) :
    let tree := (Parsed.ofSource source file options).tree
    ∀ id ∈ tree.roots, ∃ node, tree.get? id = some node ∧
      tree.written? id = some ((tokensWithin node.span tokens.tokens).flatMap Token.signs) := by
  have ho := Tokens.ofSource_inOrder ht
  rw [ofSource_eq_ofTokens ht]
  intro tree id hid
  rcases Parse.ofTokens_reached tokens file options with h | ⟨s, header, ids, hr, h⟩
  · simp [tree, h, Tree.roots] at hid
  · have htree : tree = _ := h
    rw [htree] at hid ⊢
    obtain ⟨htokens, hb, hp, hf, hn, hs, hw⟩ := hr.readFrom rfl id hid
    rw [Parse.State.start_tokens, Parse.State.ended_of_inOrder ho] at htokens
    refine ⟨_, hn, ?_⟩
    rw [htokens] at ho ⊢
    rw [hs, ho.tokensWithin_eq hb hp hf]
    exact hw

theorem Parsed.ofSource_written_array :
    let tokens : Tokens :=
      { tokens :=
          [⟨.doWord, "do", ⟨0, 2⟩⟩, ⟨.openBracket, "[", ⟨3, 4⟩⟩, ⟨.integer, "1", ⟨4, 5⟩⟩,
            ⟨.comma, ",", ⟨5, 6⟩⟩, ⟨.integer, "2", ⟨7, 8⟩⟩, ⟨.closeBracket, "]", ⟨8, 9⟩⟩,
            .endAt (.emptyAt 9)]
        trivia := #[⟨.whitespace, ⟨2, 3⟩⟩, ⟨.whitespace, ⟨6, 7⟩⟩] }
    let tree := (Parsed.ofSource "do [1, 2]" "list.sm" {}).tree
    Tokens.ofSource "do [1, 2]" "list.sm" {} = .ok tokens ∧ 3 ∈ tree.roots ∧
      ∃ node, tree.get? 3 = some node ∧
        tree.written? 3 =
          some ((tokensWithin node.span tokens.tokens).flatMap Token.signs) := by
  intro tokens tree
  have ht : Tokens.ofSource "do [1, 2]" "list.sm" {} = .ok tokens := by decide +kernel
  have hm : 3 ∈ tree.roots := by decide +kernel
  exact ⟨ht, hm, Parsed.ofSource_written ht 3 hm⟩

end Smaug
