import Smaug.Parse.Parsed
import Smaug.Proofs.Parse.Success

/-! # What the parse of a module can reach

Between two statements a parse has read a header and some statements, and its arena holds what was
built for these and nothing else: a failure passes tokens and leaves the arena as it was.  What
holds at the start, after a header and across a statement therefore holds of the tree in the end.
-/

namespace Smaug.Parse

open Grammar

namespace State

theorem start_nodes (tokens : List Token) : (start tokens).nodes = #[] := by
  unfold start
  split <;> rfl

theorem start_depth (tokens : List Token) : (start tokens).depth = 0 := by
  unfold start
  split <;> rfl

theorem discard_mark {s s' : State} (h : Grown s s') :
    Kept s (s'.discard s.mark) ∧ (s'.discard s.mark).nodes = s.nodes := by
  have hn : (s'.discard s.mark).nodes = s.nodes := h.shrink
  exact ⟨⟨⟨h.tokens, prefix_of_nodes_eq hn⟩, rfl⟩, hn⟩

end State

theorem skipStatement_kept (n : Nat) (s : State) :
    Kept s (skipStatement n s) ∧ (skipStatement n s).nodes = s.nodes := by
  induction n generalizing s with
  | zero => exact ⟨.refl s, rfl⟩
  | succ n ih =>
    unfold skipStatement
    split
    iterate 3 exact ⟨.refl s, rfl⟩
    · exact ⟨.advance s, s.advance_nodes⟩
    · obtain ⟨hk, hn⟩ := ih s.advance
      exact ⟨(Kept.advance s).trans hk, hn.trans s.advance_nodes⟩

/-- Going on after a failure leaves the arena as it was before. -/
theorem recover_kept {s s' : State} (h : Grown s s') :
    Kept s (recover s.mark s') ∧ (recover s.mark s').nodes = s.nodes := by
  obtain ⟨hk, hn⟩ := State.discard_mark h
  have ha := (hk.trans (Kept.advance _))
  unfold recover
  simp only
  split
  · split
    · exact ⟨ha, (State.advance_nodes _).trans hn⟩
    · obtain ⟨hk', hn'⟩ := skipStatement_kept (s'.discard s.mark).advance.remaining
        (s'.discard s.mark).advance
      exact ⟨ha.trans hk', hn'.trans ((State.advance_nodes _).trans hn)⟩
  · obtain ⟨hk', hn'⟩ := skipStatement_kept (s'.discard s.mark).remaining (s'.discard s.mark)
    exact ⟨hk.trans hk', hn'.trans hn⟩

inductive HeaderRead : State → Option NodeId → State → Prop
  | none (hm : s.current.isWord "module" = false) : HeaderRead s none s
  | some (hm : s.current.isWord "module") (hp : PathRead s.advance p s₁) :
      HeaderRead s (some s₁.nodes.size)
        (s₁.push ⟨.moduleHeader p, s₁.spanFrom s.current.span.start⟩)

theorem header_done {setup : Setup} {s s' : State} {i : Option NodeId}
    (h : header setup s = .done i s') : HeaderRead s i s' := by
  simp only [header, bind_done, look_done, eatWord_done] at h
  obtain ⟨_, s, ⟨rfl, rfl⟩, _, _, ⟨rfl, rfl⟩, h⟩ := h
  cases hm : s.current.isWord "module" with
  | true =>
    simp only [hm, if_true, bind_done, map_done, pushFrom_done] at h
    obtain ⟨_, _, hp, _, ⟨rfl, rfl⟩, rfl⟩ := h
    exact .some hm (path_done hp)
  | false =>
    simp only [hm, Bool.false_eq_true, if_false, pure_done] at h
    obtain ⟨rfl, rfl⟩ := h
    exact .none hm

theorem header_none {setup : Setup} {s : State} (hm : s.current.isWord "module" = false) :
    header setup s = .done none s := by
  simp [header, eatWord, look, Bind.bind, Parse.bind, hm, Pure.pure, Parse.pure]

instance : Keeps header := by unfold header; infer_instance

/-- How far a parse of some tokens can come: to a state, with a header and statements read. -/
inductive Reached (setup : Setup) (tokens : List Token) :
    State → Option NodeId → List NodeId → Prop
  | start : Reached setup tokens (.start tokens) none []
  | header (h : HeaderRead (.start tokens) first s) (hk : Kept (.start tokens) s) :
      Reached setup tokens s first []
  | statement (hr : Reached setup tokens s first ids) (ht : s.hasTokens)
      (h : (Rule.form .statement).parse setup s = .done i s') :
      Reached setup tokens s' first (ids ++ [i])
  /-- Tokens were passed over, and no node was added. -/
  | skip (hr : Reached setup tokens s first ids) (hk : Kept s s') (hn : s'.nodes = s.nodes) :
      Reached setup tokens s' first ids

section
variable {setup : Setup} {tokens : List Token}

theorem Reached.kept {s : State} {header : Option NodeId} {ids : List NodeId}
    (h : Reached setup tokens s header ids) : Kept (.start tokens) s := by
  induction h with
  | start => exact .refl _
  | header _ hk => exact hk
  | @statement s _ _ _ _ _ _ h ih =>
    have hk := keeps (Rule.form .statement).parse setup s
    rw [h] at hk
    exact ih.trans hk
  | skip _ hk _ ih => exact ih.trans hk

theorem Reached.grown {s : State} {header : Option NodeId} {ids : List NodeId}
    (h : Reached setup tokens s header ids) : Grown (.start tokens) s := h.kept.toGrown

/-- Every statement was read somewhere, and what came later left it as it is. -/
theorem Reached.statement_mem {s : State} {header : Option NodeId} {ids : List NodeId}
    (h : Reached setup tokens s header ids) {id : NodeId} (hid : id ∈ ids) :
    ∃ s₁ s₂, Kept (.start tokens) s₁ ∧ s₁.hasTokens ∧
      (Rule.form .statement).parse setup s₁ = .done id s₂ ∧ Grown s₂ s := by
  induction h with
  | start => cases hid
  | header => cases hid
  | @statement s _ _ _ s' hr ht h ih =>
    have hk := keeps (Rule.form .statement).parse setup s
    rw [h] at hk
    rcases List.mem_append.1 hid with hid | hid
    · obtain ⟨s₁, s₂, hs, ht, hd, hg⟩ := ih hid
      exact ⟨s₁, s₂, hs, ht, hd, hg.trans hk.toGrown⟩
    · obtain rfl := List.mem_singleton.1 hid
      exact ⟨s, s', hr.kept, ht, h, .refl s'⟩
  | skip _ hk _ ih =>
    obtain ⟨s₁, s₂, hs, ht, hd, hg⟩ := ih hid
    exact ⟨s₁, s₂, hs, ht, hd, hg.trans hk.toGrown⟩

theorem topLevel_reached {strict : Bool} {turns : Nat} {s s' : State} {header : Option NodeId}
    {ids : Array NodeId} {errors : Array Error} (hr : Reached setup tokens s header ids.toList)
    (h : (topLevel setup strict turns s ids errors).state = some s') :
    Reached setup tokens s' header
      (topLevel setup strict turns s ids errors).statements.toList := by
  induction turns generalizing s ids errors with
  | zero =>
    cases h
    exact hr
  | succ turns ih =>
    have hp := keeps (Rule.form .statement).parse setup s
    rw [topLevel] at h ⊢
    split
    · rename_i ht
      rw [if_pos ht] at h
      cases ho : (Rule.form .statement).parse setup s with
      | done id s₁ =>
        simp only [ho] at h ⊢
        refine ih ?_ h
        rw [Array.toList_push]
        exact hr.statement ht ho
      | stopped why s₁ =>
        simp only [ho] at h ⊢
        rw [ho] at hp
        obtain ⟨hd, hdn⟩ := State.discard_mark hp.grown
        obtain ⟨hk, hkn⟩ := recover_kept hp.grown
        cases why with
        | error error =>
          by_cases hc : error.classify = .resource
          · simp [hc] at h
          · cases strict with
            | true =>
              simp only [hc, if_false, if_true] at h ⊢
              cases h
              exact hr.skip hd hdn
            | false =>
              simp only [hc, if_false, Bool.false_eq_true] at h ⊢
              exact ih (hr.skip hk hkn) h
        | missingNode id =>
          cases h
          exact hr.skip hd hdn
        | exhausted =>
          cases h
          exact hr.skip hd hdn
    · rename_i ht
      rw [if_neg ht] at h
      cases h
      exact hr

/-! ## One turn at the top level -/

section
variable {strict : Bool} {turns : Nat} {s s' : State} {ids : Array NodeId} {errors : Array Error}

theorem topLevel_end (ht : s.hasTokens = false) :
    topLevel setup strict turns s ids errors = ⟨some s, ids, errors⟩ := by
  cases turns with
  | zero => rfl
  | succ turns => simp [topLevel, ht]

theorem topLevel_statement (ht : s.hasTokens) {id : NodeId}
    (h : (Rule.form .statement).parse setup s = .done id s') :
    topLevel setup strict (turns + 1) s ids errors =
      topLevel setup strict turns s' (ids.push id) errors := by
  simp [topLevel, ht, h]

theorem topLevel_limit (ht : s.hasTokens) {error : Error}
    (h : (Rule.form .statement).parse setup s = .stopped (.error error) s')
    (hc : error.classify = .resource) :
    topLevel setup strict (turns + 1) s ids errors = ⟨none, ids, errors.push error⟩ := by
  simp [topLevel, ht, h, hc]

theorem topLevel_recover (ht : s.hasTokens) {error : Error}
    (h : (Rule.form .statement).parse setup s = .stopped (.error error) s')
    (hc : error.classify ≠ .resource) :
    topLevel setup false (turns + 1) s ids errors =
      topLevel setup false turns (recover s.mark s') ids (errors.push error) := by
  simp [topLevel, ht, h, hc]

end

/-- What the tree of a module is taken from. -/
theorem ofTokens_reached (tokens : Tokens) (file : String) (options : Options) :
    (Parsed.ofTokens tokens file options).tree = { file } ∨
      ∃ s header ids,
        Reached (.standard file options) tokens.tokens s header ids ∧
        (Parsed.ofTokens tokens file options).tree =
          { file, nodes := s.nodes, header, statements := ids, trivia := tokens.trivia } := by
  have finish {header : Option NodeId} {s : State} {strict : Bool} {errors : Array Error}
      (hr : Reached (.standard file options) tokens.tokens s
        header []) :
      let tree := (Parsed.ofProgress file tokens.trivia header
        (moduleBody (.standard file options) strict s
          errors)).tree
      tree = { file } ∨ ∃ s header ids,
        Reached (.standard file options) tokens.tokens s header ids ∧
        tree = { file, nodes := s.nodes, header, statements := ids, trivia := tokens.trivia } := by
    simp only [Parsed.ofProgress]
    cases hs : (moduleBody _ strict s errors).state with
    | none => exact .inl rfl
    | some s' => exact .inr ⟨s', header, _, topLevel_reached hr hs, rfl⟩
  unfold Parsed.ofTokens
  have hk := keeps header (.standard file options) (State.start tokens.tokens)
  simp only
  split
  · rename_i header s ho
    rw [ho] at hk
    exact finish (.header (header_done ho) hk)
  · rename_i error s ho
    split
    · exact .inl rfl
    · rw [ho] at hk
      obtain ⟨hk, hn⟩ := recover_kept hk.grown
      exact finish (Reached.start.skip hk hn)
  · exact .inl rfl

end

end Smaug.Parse
