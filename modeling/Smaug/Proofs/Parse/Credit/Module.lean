import Smaug.Proofs.Parse.Credit.Rules

/-! # The arena of a parse

At no moment of the parse of a source are there more nodes than bytes were passed, and so never more
than the source has.  A node can therefore be known by a place of 32 bits, as offsets are.
-/

namespace Smaug
namespace Parse

/-- Adds a node as `push` does, and keeps its place in 32 bits. -/
def pushWrapped (shape : Shape) (span : Span) : Parse NodeId := fun _ s =>
  .done (UInt32.ofNat s.nodes.size).toNat (s.push ⟨shape, span⟩)

theorem toNat_place {s : State} (h : s.nodes.size ≤ Span.maxOffset) :
    (UInt32.ofNat s.nodes.size).toNat = s.nodes.size :=
  UInt32.toNat_ofNat_of_lt' (Nat.lt_of_le_of_lt h (by decide))

theorem pushWrapped_eq_push (shape : Shape) (span : Span) (setup : Setup) {s : State}
    (h : s.nodes.size ≤ Span.maxOffset) :
    pushWrapped shape span setup s = push shape span setup s := by
  rw [pushWrapped, push, toNat_place h]

namespace State

variable {s t : State}

/-- Passing tokens without adding nodes leaves no debts. -/
theorem Sound.paid (hs : s.Sound) (ha : s.Affords 0) (h : Grown s t) (hn : t.nodes = s.nodes) :
    s.Paid t := by
  have hl := hs.lastStop_le h
  refine ⟨h, ?_⟩
  unfold Affords at *
  rw [hn]
  omega

theorem Paid.sound (h : s.Paid t) (hs : s.Sound) : t.Sound := hs.grow h.grown

end State

/-! ## Moments -/

section
variable {setup : Setup} {s : State}

instance : Covers 0 header := by delta header; infer_instance

theorem statement_moments (ht : setup.table = .standard) (hs : s.Sound) (ha : s.Affords 0) :
    (∀ t ∈ (Rule.form .statement).moments setup s, s.Paid t) ∧
      s.Paid ((Rule.form .statement).parse setup s).state := by
  have h : (Script.instRunWith (Rule.fuel setup s) (.form .statement)).Solvent setup s 0
      fun _ => 0 := Affords.affords ht hs trivial
  exact ⟨h.moments ha, h.final ha⟩

theorem skipMoments_grown (n : Nat) (s : State) :
    ∀ t ∈ skipMoments n s, Grown s t ∧ t.nodes = s.nodes := by
  induction n generalizing s with
  | zero => simp [skipMoments]
  | succ n ih =>
    have ha : Grown s s.advance ∧ s.advance.nodes = s.nodes :=
      ⟨(Kept.advance s).toGrown, s.advance_nodes⟩
    unfold skipMoments
    split
    · simp
    · simp
    · simp
    · simpa using ha
    · refine List.forall_mem_cons.2 ⟨ha, fun t h => ?_⟩
      obtain ⟨hg, hn⟩ := ih s.advance t h
      exact ⟨ha.1.trans hg, hn.trans ha.2⟩

theorem recoverMoments_grown {s s' : State} (h : Grown s s') :
    ∀ t ∈ recoverMoments s.mark s', Grown s t ∧ t.nodes = s.nodes := by
  obtain ⟨hd, hn⟩ := State.discard_mark h
  have hskip {s₁ : State} (hg : Grown s s₁) (hn : s₁.nodes = s.nodes) (n : Nat) :
      ∀ t ∈ skipMoments n s₁, Grown s t ∧ t.nodes = s.nodes := fun t h =>
    let ⟨hg', hn'⟩ := skipMoments_grown n s₁ t h
    ⟨hg.trans hg', hn'.trans hn⟩
  have ha : Grown s (s'.discard s.mark).advance := (hd.trans (.advance _)).toGrown
  have hna := (State.advance_nodes _).trans hn
  unfold recoverMoments
  dsimp only
  split
  · split
    · simp [hd.toGrown, hn, ha]
    · exact List.forall_mem_cons.2 ⟨⟨hd.toGrown, hn⟩,
        List.forall_mem_cons.2 ⟨⟨ha, hna⟩, hskip ha hna _⟩⟩
  · exact List.forall_mem_cons.2 ⟨⟨hd.toGrown, hn⟩, hskip hd.toGrown hn _⟩

theorem topLevelMoments_paid (ht : setup.table = .standard) (strict : Bool) (turns : Nat)
    (hs : s.Sound) (ha : s.Affords 0) : ∀ t ∈ topLevelMoments setup strict turns s, s.Paid t := by
  induction turns generalizing s with
  | zero => simp [topLevelMoments]
  | succ turns ih =>
    obtain ⟨hm, hp⟩ := statement_moments ht hs ha
    have hrest {s₁ : State} (hp : s.Paid s₁) :
        ∀ t ∈ topLevelMoments setup strict turns s₁, s.Paid t := fun t h =>
      .from hp.grown (ih (hp.sound hs) hp.affords t h)
    rw [topLevelMoments]
    split
    · refine List.forall_mem_append.2 ⟨hm, ?_⟩
      cases hd : (Rule.form .statement).parse setup s with
      | done id s₁ =>
        rw [hd] at hp
        exact hrest hp
      | stopped why s₁ =>
        rw [hd] at hp
        have hdiscard : ∀ t ∈ [s₁.discard s.mark], s.Paid t := by
          obtain ⟨hk, hn⟩ := State.discard_mark hp.grown
          exact List.forall_mem_singleton.2 (hs.paid ha hk.toGrown hn)
        cases why with
        | missingNode | exhausted => exact hdiscard
        | error error =>
          dsimp only
          split
          · simp
          · split
            · exact hdiscard
            · obtain ⟨hk, hn⟩ := recover_kept hp.grown
              refine List.forall_mem_append.2 ⟨fun t h => ?_, hrest (hs.paid ha hk.toGrown hn)⟩
              obtain ⟨hg, hn⟩ := recoverMoments_grown hp.grown t h
              exact hs.paid ha hg hn
    · simp

theorem moduleMoments_paid (ht : setup.table = .standard) (strict : Bool) (tokens : List Token)
    (hs : (State.start tokens).Sound) (ha : (State.start tokens).Affords 0) :
    ∀ t ∈ moduleMoments tokens setup strict, (State.start tokens).Paid t := by
  have h : (inferInstance : Script header).Solvent setup (.start tokens) 0 fun _ => 0 :=
    Covers.covers ht hs
  have hp := h.final ha
  have hrest {strict : Bool} {turns : Nat} {s : State} (hp : (State.start tokens).Paid s) :
      ∀ t ∈ topLevelMoments setup strict turns s, (State.start tokens).Paid t := fun t h =>
    .from hp.grown (topLevelMoments_paid ht strict turns (hp.sound hs) hp.affords t h)
  refine List.forall_mem_append.2 ⟨h.moments ha, ?_⟩
  cases hd : header setup (State.start tokens) with
  | done first s =>
    rw [hd] at hp
    exact hrest hp
  | stopped why s =>
    rw [hd] at hp
    cases why with
    | missingNode | exhausted => simp
    | error error =>
      cases strict with
      | true => simp
      | false =>
        obtain ⟨hk, hn⟩ := recover_kept hp.grown
        refine List.forall_mem_append.2 ⟨fun t h => ?_, hrest (hs.paid ha hk.toGrown hn)⟩
        obtain ⟨hg, hn⟩ := recoverMoments_grown hp.grown t h
        exact hs.paid ha hg hn

end

/-! ## The moments of a source -/

section
variable {source file : String} {options : Options} {tokens : Tokens} {s : State}

theorem State.start_of_source (h : Tokens.ofSource source file options = .ok tokens) :
    (State.start tokens.tokens).tokens = tokens.tokens := by
  rw [State.start_tokens, State.ended_of_inOrder (Tokens.ofSource_inOrder h)]

theorem State.start_sound (h : Tokens.ofSource source file options = .ok tokens) :
    (State.start tokens.tokens).Sound := by
  refine ⟨?_, fun token hm hk => ?_⟩
  · rw [State.start_lastStop, start_of_source h]
    exact Tokens.ofSource_inOrder h
  · rw [start_of_source h] at hm
    exact Tokens.ofSource_wide h hm hk

theorem moments_paid (h : Tokens.ofSource source file options = .ok tokens) :
    let start := State.start tokens.tokens
    let moments := moduleMoments tokens.tokens (.standard file options) options.isStrict
    ∀ s ∈ start :: moments, start.Paid s := by
  have ha : (State.start tokens.tokens).Affords 0 := by
    rw [State.Affords, State.start_nodes, State.start_lastStop]
    exact Nat.le_refl 0
  exact List.forall_mem_cons.2
    ⟨⟨.refl _, ha⟩, moduleMoments_paid rfl _ _ (State.start_sound h) ha⟩

theorem State.Paid.passed (h : Tokens.ofSource source file options = .ok tokens)
    (hp : (State.start tokens.tokens).Paid s) :
    ∃ passed, tokens.tokens = passed ++ s.tokens ∧ s.lastStop = stopAfter 0 passed := by
  obtain ⟨passed, ht, -, hl⟩ := hp.grown.tokens
  rw [start_of_source h] at ht
  rw [State.start_lastStop] at hl
  exact ⟨passed, ht, hl⟩

theorem stopAfter_le {bound : Nat} {passed : List Token}
    (h : ∀ token ∈ passed, token.span.stop ≤ bound) : stopAfter 0 passed ≤ bound := by
  unfold stopAfter
  cases hl : passed.getLast? with
  | none => exact Nat.zero_le _
  | some token => exact h token (List.mem_of_getLast? hl)

theorem State.Paid.lastStop_le (h : Tokens.ofSource source file options = .ok tokens)
    (hp : (State.start tokens.tokens).Paid s) : s.lastStop ≤ source.utf8ByteSize := by
  obtain ⟨passed, ht, hl⟩ := hp.passed h
  rw [hl]
  refine stopAfter_le fun token hm => ?_
  have hle := (Tokens.ofSource_lexed h).span_le token (ht ▸ List.mem_append_left _ hm)
  rw [Nat.zero_add, Text.size_toList] at hle
  exact hle.2

end

end Parse

open Parse

/-- Bytes pay for nodes: at every moment of the parse of a source, in the midst of statements, while
something is tried and while the parse goes on after a failure, there are no more nodes than bytes
up to the end of the last token passed, and so no more than the source has.  Those can be counted in
32 bits, so nothing is cut off from the places of nodes or the offsets of tokens and trivia. -/
theorem Parsed.ofSource_paid (source file : String) (options : Options) :
    let parsed := ofSource source file options
    parsed.tree.nodes.size ≤ source.utf8ByteSize ∧
      ∀ tokens, Tokens.ofSource source file options = .ok tokens →
        let setup := Setup.standard file options
        let start := State.start tokens.tokens
        let moments := moduleMoments tokens.tokens setup options.isStrict
        (∃ last, Course start moments last ∧
          (parsed.tree = { file } ∨ parsed.tree.nodes = last.nodes)) ∧
        (∀ s ∈ start :: moments,
          s.nodes.size ≤ s.lastStop ∧ s.lastStop ≤ source.utf8ByteSize ∧
          (∃ passed, tokens.tokens = passed ++ s.tokens ∧ s.lastStop = stopAfter 0 passed) ∧
          ∀ shape span,
            pushWrapped shape span setup s = push shape span setup s ∧
            (s.push ⟨shape, span⟩).nodes[(UInt32.ofNat s.nodes.size).toNat]? =
              some ⟨shape, span⟩) ∧
        source.utf8ByteSize ≤ Span.maxOffset ∧
        Lexed 0 source.toList tokens.tokens ∧
        tokens.trivia.toList =
          (regions file 0 source.toList).filterMap fun item => item.2.trivia? := by
  intro parsed
  cases h : Tokens.ofSource source file options with
  | error errors =>
    have htree : parsed.tree = { file } := by simp only [parsed, ofSource, h]
    exact ⟨by simp [htree], fun tokens h => by cases h⟩
  | ok tokens =>
    have hs : source.utf8ByteSize ≤ Span.maxOffset := Tokens.ofSource_size h
    have hp := moments_paid h
    obtain ⟨last, hc, htree⟩ := ofTokens_course tokens file options
    rw [← ofSource_eq_ofTokens h] at htree
    have hle {s : State} (hp : (State.start tokens.tokens).Paid s) :
        s.nodes.size ≤ source.utf8ByteSize := hp.affords.trans (hp.lastStop_le h)
    refine ⟨?_, fun tokens' h' => ?_⟩
    · rcases htree with htree | htree
      · simp [parsed, htree]
      · rw [htree]
        rcases hc.last with rfl | hl
        · exact hle (hp _ List.mem_cons_self)
        · exact hle (hp _ (List.mem_cons_of_mem _ hl))
    · cases h'
      refine ⟨⟨last, hc, htree⟩, fun s hm => ?_, hs, Tokens.ofSource_lexed h,
        (Tokens.ofSource_items h).2⟩
      have hps := hp s hm
      have hbound : s.nodes.size ≤ Span.maxOffset := (hle hps).trans hs
      refine ⟨hps.affords, hps.lastStop_le h, hps.passed h, fun shape span => ?_⟩
      exact ⟨pushWrapped_eq_push shape span _ hbound, by simp [toNat_place hbound, State.push]⟩

theorem Parsed.ofSource_paid_each :
    let source := "each (1) = 2 3"
    let tokens : Tokens :=
      { tokens :=
          [⟨.eachWord, "each", ⟨0, 4⟩⟩, ⟨.openParen, "(", ⟨5, 6⟩⟩, ⟨.integer, "1", ⟨6, 7⟩⟩,
            ⟨.closeParen, ")", ⟨7, 8⟩⟩, ⟨.assignment, "=", ⟨9, 10⟩⟩, ⟨.integer, "2", ⟨11, 12⟩⟩,
            ⟨.integer, "3", ⟨13, 14⟩⟩, .endAt (.emptyAt 14)]
        trivia := #[⟨.whitespace, ⟨4, 5⟩⟩, ⟨.whitespace, ⟨8, 9⟩⟩, ⟨.whitespace, ⟨10, 11⟩⟩,
          ⟨.whitespace, ⟨12, 13⟩⟩] }
    let start := State.start tokens.tokens
    Tokens.ofSource source "each.sm" {} = .ok tokens ∧
      ∀ s ∈ start :: moduleMoments tokens.tokens (.standard "each.sm" {}) ({} : Options).isStrict,
        s.nodes.size ≤ s.lastStop ∧ s.lastStop ≤ source.utf8ByteSize ∧
        ∃ passed, tokens.tokens = passed ++ s.tokens ∧ s.lastStop = stopAfter 0 passed := by
  intro source tokens start
  have ht : Tokens.ofSource source "each.sm" {} = .ok tokens := by decide +kernel
  obtain ⟨-, hmoments, -⟩ := (Parsed.ofSource_paid source "each.sm" {}).2 tokens ht
  refine ⟨ht, fun s hs => ?_⟩
  obtain ⟨hn, hl, hp, -⟩ := hmoments s hs
  exact ⟨hn, hl, hp⟩

end Smaug
