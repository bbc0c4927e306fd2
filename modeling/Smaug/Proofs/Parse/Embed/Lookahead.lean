import Mathlib
import Smaug.Proofs.Parse.Embed.Statements
import Smaug.Proofs.Parse.Grouping

/-! # Looking ahead in a piece that is put into an input

A rule that looks further ahead than the next token sees beyond the piece on its last token.  There
it sees the end of the input in the piece, and a token that closes a construct in the input: neither
is what it looks for, but for the tokens behind the operand of a `yield`.
-/

namespace Smaug.Parse

open Grammar

section
variable {f : Site} {s c : State}

/-- The token after the next one is the same, or the piece ends there. -/
theorem Embedded.peek (h : Embedded f s c) (hc : c.hasTokens) :
    s.peek 1 = c.peek 1 ∨ c.peek 1 = .eof ∧ s.peek 1 = f.next.kind := by
  obtain ⟨-, -, front, front', stop, -, -, -, hsa, hca, hk, -, hf⟩ := h.inside hc
  unfold State.peek
  rw [hsa, hca]
  cases front' with
  | nil =>
    obtain rfl : front = [] := by simpa using hf
    exact .inr ⟨hk, rfl⟩
  | cons token' front' =>
    cases front with
    | nil => simp at hf
    | cons token front =>
      obtain ⟨hb, -⟩ := List.cons_eq_cons.1 hf
      exact .inl (congrArg Token.kind hb :)

theorem Embedded.peek_eq_iff (h : Embedded f s c) (hc : c.hasTokens) {kind : Token.Kind}
    (hk : kind.endsConstruct = false) : s.peek 1 = kind ↔ c.peek 1 = kind := by
  rcases h.peek hc with hp | ⟨hp, hp'⟩
  · rw [hp]
  · rw [hp, hp']
    refine iff_of_false (f.ne_of_not_closing hk) ?_
    rintro rfl
    cases hk

theorem embedsInside_peek [Renumbered α] {P : α → State → Prop} {kind : Token.Kind}
    (hk : kind.endsConstruct = false) {step step' other other' : Parse α}
    (h : EmbedsInside f P step step') (h' : EmbedsInside f P other other') :
    EmbedsInside f P (look (·.peek 1) >>= fun next => if next = kind then step else other)
      (look (·.peek 1) >>= fun next => if next = kind then step' else other') where
  yields {setup setup'} hsetup {s c c' value'} hs hc hd hq := by
    change (if c.peek 1 = kind then step' else other') setup' c = _ at hd
    change ((if s.peek 1 = kind then step else other) setup s).Yields _
    by_cases hp : c.peek 1 = kind
    · rw [if_pos hp] at hd
      rw [if_pos ((hs.peek_eq_iff hc hk).2 hp)]
      exact h.yields hsetup hs hc hd hq
    · rw [if_neg hp] at hd
      rw [if_neg (mt (hs.peek_eq_iff hc hk).1 hp)]
      exact h'.yields hsetup hs hc hd hq

/-- The tokens behind the operand of a `yield` are seen to be the same, unless the last one is a
colon. -/
theorem Embedded.continuesAsAttributes (h : Embedded f s c) (hc : c.hasTokens)
    (hcolon : c.kind = .colon → c.peek 1 = .eof → f.Ends) :
    continuesAsAttributes .standard s = continuesAsAttributes .standard c := by
  unfold Parse.continuesAsAttributes
  rw [h.kind hc]
  rcases h.peek hc with hp | ⟨hp, hp'⟩
  · rw [hp]
  · split
    · rfl
    · rename_i hk
      rcases hcolon hk hp with he | he <;> simp [hp, hp', he]
    · have := f.closing
      rw [hp, hp']
      cases hk : f.next.kind <;> first | rfl | (rw [hk] at this; cases this)
    · rfl

theorem Embedded.continuesAsAttributes_end (h : Embedded f s c) (hc : c.kind = .eof) :
    Parse.continuesAsAttributes .standard s = f.continues := by
  obtain ⟨hs, ha, -⟩ := h.outside hc
  simp only [Parse.continuesAsAttributes, Site.continues, State.kind, State.peek, hs, ha]

/-- Where the piece has ended, one token is left of it. -/
theorem Embedded.remaining_end {c' : State} (h : Embedded f s c) (hk : Kept c c')
    (hc : c'.kind = .eof) : c'.remaining = 1 := by
  obtain ⟨-, front', stop, -, hct, -, ht, -⟩ := h.tokens
  obtain ⟨passed, hp, -⟩ := hk.tokens
  rw [hct] at hp
  rcases List.eq_nil_or_concat c'.ahead with ha | ⟨more, last, ha⟩
  · rw [State.remaining, ha, List.length_nil]
  · have hsplit : front' ++ [stop] = (passed ++ c'.current :: more) ++ [last] := by
      rw [hp, State.tokens, ha]
      simp
    obtain ⟨rfl, -⟩ := List.append_inj' hsplit rfl
    exact absurd hc (ht c'.current (by simp))

end

/-! ## Rules that look ahead -/

section
variable {f : Site} {run run' : Rule → Parse NodeId} [∀ rule, Keeps (run' rule)] [Passing run']
  [EmbedsRules f run run']
set_option synthInstance.maxSize 2048

theorem embeds_namedPattern (b : Bool) :
    EmbedsInside f (When False) (namedPattern run b) (namedPattern run' b) :=
  embedsInside_peek rfl (Embeds.inside inferInstance) (Embeds.inside inferInstance)

omit [EmbedsRules f run run'] in
theorem passes_letStatement (start : Nat) (kind : Token.Kind) :
    Passes (match kind with
      | .structWord => letStruct run' start
      | .enumWord => letEnum run' start
      | .identifier | .builtIn =>
        look (·.peek 1) >>= fun next =>
          if next = .openParen then letFunction run' start else letVariable run' start
      | _ => letVariable run' start) := by
  split <;> infer_instance

theorem embeds_letStatement : EmbedsInside f f.Admits (letStatement run) (letStatement run') := by
  refine embedsInside_advance fun token token' _ => ?_
  have hk (kind : Token.Kind) : Keeps (match kind with
      | .structWord => letStruct run' token'.span.start
      | .enumWord => letEnum run' token'.span.start
      | .identifier | .builtIn =>
        look (·.peek 1) >>= fun next =>
          if next = .openParen then letFunction run' token'.span.start
          else letVariable run' token'.span.start
      | _ => letVariable run' token'.span.start) := by
    split <;> infer_instance
  refine @EmbedsInside.of_passes _ _ _ _ _ _ (keeps_bind _ hk)
    (passes_bind fun kind => passes_letStatement token'.span.start kind)
    (embedsInside_kind fun kind => ?_)
  split
  · exact Embeds.inside inferInstance
  · exact Embeds.inside inferInstance
  · exact embedsInside_peek rfl (Embeds.inside inferInstance) (Embeds.inside inferInstance)
  · exact embedsInside_peek rfl (Embeds.inside inferInstance) (Embeds.inside inferInstance)
  · exact Embeds.inside inferInstance

instance : Embeds f f.Admits (statementList run) (statementList run') := by
  have hitem : Embeds f (When f.Ends) (run (.form .statement)) (run' (.form .statement)) :=
    embeds_run fun i c h => Site.Ends.admits h i c
  have (start start' : Nat) : Embeds f f.Admits
      (bracedItems (run (.form .statement)) >>= fun statements =>
        pushFrom start (.transparentList .colon statements))
      (bracedItems (run' (.form .statement)) >>= fun statements =>
        pushFrom start' (.transparentList .colon statements)) := by
    refine embeds_last (embeds_bracedItems (p := f.Ends) id) (fun _ => inferInstance)
      (fun ids ids' hi => ?_) ?_
    · have : Related (Like f) ids ids' := ⟨hi⟩
      infer_instance
    · rintro ids setup c c' value - - hd hq
      obtain ⟨rfl, rfl⟩ := pushFrom_done.1 hd
      exact hq.list (.self Array.getElem?_push_size rfl)
  unfold statementList
  infer_instance

def attributesAfter (run : Rule → Parse NodeId) (start : Nat) (operand : NodeId) : Parse NodeId := do
  let first ← pushFrom start (.yieldAttribute operand)
  let more ← moreAttributes run
  let body ← statementList run
  pushFrom start (.batchAttributes (first :: more) body)

instance (start start' : Nat) {operand operand' : NodeId} [Related (Like f) operand operand'] :
    Embeds f f.Admits (attributesAfter run start operand) (attributesAfter run' start' operand') := by
  unfold attributesAfter
  infer_instance

theorem State.kind_advance {s : State} (ht : s.hasTokens) (ha : s.ahead ≠ []) :
    s.advance.kind = s.peek 1 := by
  obtain ⟨next, more, hs⟩ := List.exists_cons_of_ne_nil ha
  simp [State.advance, State.peek, State.kind, hs, ht]

omit [∀ rule, Keeps (run' rule)] [Passing run'] [EmbedsRules f run run'] in
/-- A statement list after a colon that nothing follows is there only where it may end. -/
theorem ends_of_attributesAfter {setup : Setup} {s c c' : State}
    (hs : Embedded f s c) (hk : c.kind = .colon) (hp : c.peek 1 = .eof) {start : Nat}
    {operand i : NodeId} (hd : attributesAfter run' start operand setup c = .done i c')
    (hq : c'.kind = .eof → f.Admits i c') : f.Ends := by
  have hts := State.hasTokens_of_kind hk (by decide)
  have hadvance (node : Node) : (c.push node).advance.kind = .eof := by
    obtain ⟨_, _, _, _, _, -, -, -, -, hca, -⟩ := hs.inside hts
    exact (State.kind_advance (s := c.push node) hts (by simp [State.push, hca])).trans hp
  obtain ⟨first, c₁, hf, hd⟩ := bind_done.1 hd
  obtain ⟨rfl, rfl⟩ := pushFrom_done.1 hf
  obtain ⟨more, c₂, hm, hd⟩ := bind_done.1 hd
  obtain ⟨body, c₃, hl, hd⟩ := bind_done.1 hd
  obtain ⟨rfl, rfl⟩ := pushFrom_done.1 hd
  have hany {rule : Rule} {s s' : State} {i : NodeId} (_ : Fits s rule)
      (_ : run' rule setup s = .done i s') : (fun _ _ _ _ => True : Meaning) rule s i s' := trivial
  cases moreAttributes_done hany hm with
  | comma hc | list hc => exact absurd (hk.symm.trans hc) (by decide)
  | none =>
    cases statementList_done hany hl with
    | braced ho => exact absurd (hk.symm.trans ho) (by decide)
    | colon _ hitems =>
      cases hitems with
      | nil => exact ((hq (hadvance _)).last rfl).list (.self Array.getElem?_push_size rfl)
      | last ht => cases ht
      | cons ht =>
        obtain ⟨⟨hc, -⟩, -⟩ := ht
        simp [State.hasTokens, hadvance] at hc

def yieldAfter (run : Rule → Parse NodeId) (start : Nat) (operand : NodeId) : Parse NodeId := do
  if ← look (continuesAsAttributes (← given Setup.table)) then attributesAfter run start operand
  else
    let value ← run (.continuation operand .lowest)
    pushFrom start (.yieldStatement value)

theorem yieldAfter_eq {setup : Setup} (ht : setup.table = .standard) {s : State}
    (run : Rule → Parse NodeId) (start : Nat) (operand : NodeId) :
    yieldAfter run start operand setup s =
      (if continuesAsAttributes .standard s then attributesAfter run start operand
        else (run (.continuation operand .lowest) >>= fun value =>
          pushFrom start (.yieldStatement value))) setup s := by
  rw [← ht]
  rfl

theorem embeds_yieldAfter_inside {setup setup' : Setup} (hsetup : f.Suits setup setup')
    {s c c' : State} {start start' : Nat} {operand operand' i : NodeId}
    (hl : Like f operand operand') (hs : Embedded f s c)
    (hd : yieldAfter run' start' operand' setup' c = .done i c')
    (hq : c'.kind = .eof → f.Admits i c')
    (hc : continuesAsAttributes .standard s = continuesAsAttributes .standard c) :
    (yieldAfter run start operand setup s).Yields fun value s' =>
      Like f value i ∧ Embedded f s' c' := by
  have : Related (Like f) operand operand' := ⟨hl⟩
  have hcontinue : Embeds f f.Admits (run (.continuation operand .lowest))
      (run' (.continuation operand' .lowest)) := EmbedsRules.continuation .lowest hl
  rw [yieldAfter_eq hsetup.table_piece] at hd
  rw [yieldAfter_eq hsetup.table, hc]
  split at hd
  · rename_i hb
    rw [if_pos hb]
    have : Embeds f f.Admits (attributesAfter run start operand)
        (attributesAfter run' start' operand') := inferInstance
    exact this.yields hsetup hs hd hq
  · rename_i hb
    rw [if_neg hb]
    have : Embeds f f.Admits
        (run (.continuation operand .lowest) >>= fun value =>
          pushFrom start (.yieldStatement value))
        (run' (.continuation operand' .lowest) >>= fun value =>
          pushFrom start' (.yieldStatement value)) := inferInstance
    exact this.yields hsetup hs hd hq

theorem embeds_yieldStatement [Tidy run'] :
    Embeds f f.Admits (yieldStatement run) (yieldStatement run') := by
  change Embeds f f.Admits
    (expect .yieldWord >>= fun token => typeExpression run >>= yieldAfter run token.span.start)
    (expect .yieldWord >>= fun token => typeExpression run' >>= yieldAfter run' token.span.start)
  refine Embeds.bind (P := When True) inferInstance (fun token token' _ => ⟨?_⟩)
    fun _ _ _ _ _ _ _ _ _ _ => trivial
  intro setup setup' hsetup s c c' value hs hd hq
  obtain ⟨operand, c₁, ht, hd⟩ := bind_done.1 hd
  have htype : Embeds f f.Admits (typeExpression run) (typeExpression run') :=
    inferInstanceAs (Embeds f f.Admits (run (.expression .compare)) (run' (.expression .compare)))
  by_cases hc : c₁.kind = .eof
  · -- The `yield` ends with the piece: what was read is its operand, and no attribute.
    have hend : continuesAsAttributes .standard c₁ = false := continuesAsAttributes_end hc
    have hd' := hd
    rw [yieldAfter_eq hsetup.table_piece, hend, if_neg Bool.false_ne_true] at hd'
    obtain ⟨i, c₂, hi, hp⟩ := bind_done.1 hd'
    obtain ⟨rfl, rfl⟩ := Tidy.stays hsetup.table_piece hc hi
    obtain ⟨rfl, rfl⟩ := pushFrom_done.1 hp
    have hadmits := hq hc
    obtain ⟨node, hn, hloose⟩ := Tidy.type hsetup.table_piece ht
    have hf : f.continues = false := hadmits.operand (.self Array.getElem?_push_size
      ⟨i, node, rfl, getElem?_push_of_some hn, hloose⟩)
    refine bind_yields (htype.yields hsetup hs ht fun _ => hadmits.last rfl) ?_
    rintro operand s₁ ⟨hl, hs₁⟩
    exact embeds_yieldAfter_inside hsetup hl hs₁ hd hq
      ((hs₁.continuesAsAttributes_end hc).trans (hf.trans hend.symm))
  · refine bind_yields (htype.yields hsetup hs ht fun hk => absurd hk hc) ?_
    rintro operand s₁ ⟨hl, hs₁⟩
    refine embeds_yieldAfter_inside hsetup hl hs₁ hd hq
      (hs₁.continuesAsAttributes (State.hasTokens_of_ne hc) fun hk hp => ?_)
    have hb : continuesAsAttributes .standard c₁ := by simp [continuesAsAttributes, hk, hp]
    rw [yieldAfter_eq hsetup.table_piece, if_pos hb] at hd
    exact ends_of_attributesAfter hs₁ hk hp hd hq

/-! ## The head of a range -/

/-- A head of a range that the piece does not have is not there in the input. -/
theorem rangeHead_none_embedded [∀ rule, Keeps (run rule)] [hdefinite : Definite run]
    [Definite run']
    {setup setup' : Setup} (hsetup : f.Suits setup setup') {s c c₁ : State} {i : NodeId}
    (hs : Embedded f s c) (hh : rangeHead run' setup' c = .done none c)
    (hp : run' (.pattern .any false) setup' c = .done i c₁) (hc₁ : c₁.hasTokens) :
    (rangeHead run setup s).Yields fun head s' => head = none ∧ s' = s := by
  have ht := hsetup.table_piece
  have hlt := passes (run' (.pattern .any false)) ht hs.ended_piece hp
  have hc := State.hasTokens_of_passed hlt (kept_of_done hp)
  have hnone : Outcome.Yields (fun head s' => head = (none : Option (Span × NodeId)) ∧ s' = s)
      (.done none s) := .done ⟨rfl, rfl⟩
  by_cases ho : c.kind = .openParen
  · have hos : s.kind = .openParen := (hs.kind hc).trans ho
    have hsettle {s₁ : State}
        (h : (∃ error, run (.pattern .any false) setup s.advance = .stopped (.error error) s₁) ∨
          run (.pattern .any false) setup s.advance = .stopped .exhausted s₁ ∨
          ∃ id, run (.pattern .any false) setup s.advance = .done id s₁ ∧ s₁.kind ≠ .inWord) :
        (rangeHead run setup s).Yields fun head s' => head = none ∧ s' = s := by
      rcases rangeHead_none hos h with h | h
      · exact h ▸ hnone
      · exact h ▸ .exhausted
    rcases Definite.openParen ht hs.ended_piece ho hp with hclose | ⟨i₂, c₂, h₂, hle⟩
    · have hadvance := (hs.advance hc).kind (State.hasTokens_of_kind hclose (by decide))
      obtain ⟨s₁, h⟩ := hdefinite.closeParen hsetup.table (hadvance.trans hclose)
      exact hsettle (h.imp_right .inl)
    · rw [rangeHead_apply, if_pos ho, h₂] at hh
      have hk : c₂.kind ≠ .inWord := fun hk => by simp [hk] at hh
      have hc₂ : c₂.kind ≠ .eof := fun hk₂ => by
        have h1 := hs.remaining_end ((Kept.advance c).trans (kept_of_done h₂)) hk₂
        have he₁ := hs.ended_piece.grow (kept_of_done hp).toGrown
        have := he₁.remaining_advance hc₁
        have := c₁.advance.remaining_pos
        omega
      have hf : Embeds f (When False) (run (.pattern .any false)) (run' (.pattern .any false)) :=
        inferInstance
      have hy := hf.yields hsetup (hs.advance hc) h₂ hc₂
      generalize hrun : run (.pattern .any false) setup s.advance = outcome at hy
      cases hy with
      | done h =>
        have hkind := h.2.kind (State.hasTokens_of_ne hc₂)
        exact hsettle (.inr (.inr ⟨_, hrun, hkind.trans_ne hk⟩))
      | exhausted => exact hsettle (.inr (.inl hrun))
  · rw [rangeHead_apply, if_neg (by rwa [hs.kind hc])]
    exact hnone

theorem embeds_rangeHead [∀ rule, Keeps (run rule)] [Definite run] [Definite run']
    {P : NodeId → State → Prop} {next next' : Option (Span × NodeId) → Parse NodeId}
    (hsome : ∀ opening opening' i i', Like f i i' →
      Embeds f P (next (some (opening, i))) (next' (some (opening', i'))))
    (hnone : Embeds f P (next none) (next' none))
    (hpattern : ∀ {setup : Setup} {c c' : State} {i : NodeId}, setup.table = .standard → c.Ended →
      next' none setup c = .done i c' → ∃ i₁ c₁,
        run' (.pattern .any false) setup c = .done i₁ c₁ ∧ c₁.hasTokens) :
    Embeds f P (rangeHead run >>= next) (rangeHead run' >>= next') where
  yields {setup setup'} hsetup {s c c' value'} hs hd hq := by
    have ht := hsetup.table_piece
    obtain ⟨head, c₀, hh, hnext⟩ := bind_done.1 hd
    rcases rangeHead_done hh with ⟨rfl, rfl⟩ | ⟨ho, pattern, c₁, hp₁, hi, rfl, rfl⟩
    · obtain ⟨i₁, c₁, h₁, hc₁⟩ := hpattern ht hs.ended_piece hnext
      refine bind_yields (rangeHead_none_embedded hsetup hs hh h₁ hc₁) ?_
      rintro _ _ ⟨rfl, rfl⟩
      exact hnone.yields hsetup hs hnext hq
    · have hc := State.hasTokens_of_kind ho (by decide)
      have hc₁ := State.hasTokens_of_kind hi (by decide)
      have hf : Embeds f (When False) (run (.pattern .any false)) (run' (.pattern .any false)) :=
        inferInstance
      have hy := hf.yields hsetup (hs.advance hc) hp₁ fun hk => by simp [hk] at hi
      change (Parse.bind (rangeHead run) next setup s).Yields _
      unfold Parse.bind
      rw [rangeHead_apply, if_pos ((hs.kind hc).trans ho)]
      generalize run (.pattern .any false) setup s.advance = outcome at hy
      cases hy with
      | done h =>
        obtain ⟨hl, hs₁⟩ := h
        simp only [(hs₁.kind hc₁).trans hi, if_true]
        exact (hsome _ _ _ _ hl).yields hsetup (hs₁.advance hc₁) hnext hq
      | exhausted => exact .exhausted

theorem embeds_eachStatement [∀ rule, Keeps (run rule)] [Definite run] [Definite run'] :
    EmbedsInside f f.Admits (eachStatement run) (eachStatement run') := by
  refine embedsInside_advance fun token token' _ => embeds_rangeHead
    (fun opening opening' i i' hi => ?_) ?_ ?_
  · have : Related (Like f) i i' := ⟨hi⟩
    infer_instance
  · infer_instance
  · intro setup c c' i ht he hd
    obtain ⟨_, _, hl, hd⟩ := bind_done.1 hd
    obtain ⟨rfl, rfl⟩ := look_done.1 hl
    obtain ⟨binding, c₂, hb, hd⟩ := bind_done.1 hd
    obtain ⟨pattern, c₁, hp, hb⟩ := bind_done.1 hb
    obtain ⟨token, c₃, he, hb⟩ := bind_done.1 hb
    exact ⟨pattern, c₁, hp, State.hasTokens_of_kind (expect_done.1 he).1 (by decide)⟩

end

/-! ## Types -/

/-- An operation binds more tightly than `power`, if it is one. -/
def Binds (s : State) (i : NodeId) (power : Power) : Prop :=
  ∃ node, s.nodes[i]? = some node ∧ ∀ op, node.shape.binaryOp? = some op → op.tier.tighter power

def BindsAfter : Meaning := fun rule s i s' =>
  match rule with
  | .expression power => Binds s' i power
  | .continuation left power => Binds s left power → Binds s' i power
  | .suffix _ _ next => ∀ power, next.tighter power → Binds s' i power
  | .form .typeExpression | .tuple _ | .pattern .. => True
  | .form _ => ∀ power, Binds s' i power

theorem binds_push {s : State} {shape : Shape} {span : Span} (h : shape.binaryOp? = none)
    (power : Power) : Binds (s.push ⟨shape, span⟩) s.nodes.size power :=
  ⟨_, Array.getElem?_push_size, by simp [h]⟩

theorem Binds.of_statement {s s' : State} {i : NodeId} {form : Form}
    (hf : Table.statements s.kind = some form) (h : BindsAfter (.form form) s i s')
    (power : Power) : Binds s' i power := by
  unfold Table.statements at hf
  split at hf <;> cases hf <;> exact h power

theorem Binds.of_operand {s s' : State} {i : NodeId} (h : Operand BindsAfter s i s')
    (power : Power) : Binds s' i power := by
  cases h with
  | form hf hr =>
    unfold Table.operands at hf
    split at hf <;> cases hf <;> exact hr power
  | statement _ _ hr => exact hr power

theorem Binds.of_suffixes {s s' : State} {left i : NodeId} {power : Power}
    (h : Suffixes BindsAfter power s left i s') (hl : Binds s left power) : Binds s' i power := by
  induction h with
  | stop => exact hl
  | take _ ht hr _ ih => exact ih (hr _ ht)

theorem bindsAfter_of_production {maxDepth : Nat} {rule : Rule} {s s' : State} {i : NodeId}
    (h : Production BindsAfter maxDepth rule s i s') : BindsAfter rule s i s' := by
  cases h with
  | statement hf hr => exact Binds.of_statement hf hr
  | letVariable _ hv =>
    cases hv
    exact binds_push rfl
  | expression _ ho hc => exact hc (Binds.of_operand ho _)
  | continuation hs => exact Binds.of_suffixes hs
  | binary hk ho =>
    rw [← ho, suffixes_kind] at hk
    cases hk
    refine fun power hp => ⟨_, Array.getElem?_push_size, fun op' ho' => ?_⟩
    cases ho'
    exact hp
  | call | index | member => exact fun power _ => binds_push rfl power
  | tuple | typeExpression | pattern | restPattern | namedEnum | namedIdentifier |
    identifierPattern | tuplePattern | enumPattern | literalPattern => trivial
  | _ => exact binds_push rfl

instance tidy_runWith (n : Nat) : Tidy (Rule.runWith n) where
  stays {setup} ht {c c'} hc {left i power} hd := by
    cases n with
    | zero => cases hd
    | succ n =>
      have hs : Production (fun _ _ _ _ => True) setup.maxDepth (.continuation left power) c i c' :=
        continuation_done (fun _ _ => trivial) ht hd
      cases hs with
      | continuation hs =>
        cases hs with
        | stop => exact ⟨rfl, rfl⟩
        | take hn =>
          rw [hc] at hn
          cases hn
  type {setup} ht {c c' i} hd := by
    have hb : BindsAfter (.expression .compare) c i c' :=
      runWith_done ht bindsAfter_of_production trivial hd
    obtain ⟨node, hn, hop⟩ := hb
    refine ⟨node, hn, ?_⟩
    cases ho : node.shape.binaryOp? with
    | none => simp [Shape.isLoose, ho]
    | some op => simp [Shape.isLoose, ho, hop op ho]

/-! ## Every rule -/

section
variable {f : Site} {run run' : Rule → Parse NodeId} [∀ rule, Keeps (run rule)]
  [∀ rule, Keeps (run' rule)] [Passing run'] [EmbedsRules f run run'] [Definite run]
  [Definite run'] [Tidy run']

theorem embeds_formBody (form : Form) :
    EmbedsInside f (f.AdmitsAfter (.form form)) (form.body run) (form.body run') := by
  cases form with
  | statement => exact embeds_statement
  | importStatement => exact embeds_importStatement
  | doStatement => exact embeds_doStatement
  | returnStatement => exact embeds_returnStatement
  | yieldStatement => exact embeds_yieldStatement.inside
  | ifStatement => exact embeds_ifStatement
  | eachStatement => exact embeds_eachStatement
  | matchStatement => exact embeds_matchStatement
  | letStatement => exact embeds_letStatement
  | typeExpression =>
    exact Embeds.inside (inferInstanceAs
      (Embeds f f.Admits (run (.expression .compare)) (run' (.expression .compare))))
  | primary => exact Embeds.inside (inferInstanceAs (Embeds f _ primary primary))
  | unary => exact embeds_unary
  | grouping => exact Embeds.inside (inferInstanceAs (Embeds f _ (grouping run) (grouping run')))
  | array => exact Embeds.inside (inferInstanceAs (Embeds f _ (array run) (array run')))
  | block => exact Embeds.inside (inferInstanceAs (Embeds f _ (block run) (block run')))
  | signature =>
    exact Embeds.inside (inferInstanceAs (Embeds f (When False) (signature run) (signature run')))

theorem embeds_ruleBody {rule rule' : Rule} (hl : Like f rule rule') :
    EmbedsInside f (f.AdmitsAfter rule') (rule.body run) (rule'.body run') := by
  obtain rfl : rule = renumbered (· + f.before.length) rule' := by cases rule <;> exact hl
  have hid (i : NodeId) : Like f (i + f.before.length) i := rfl
  cases rule' with
  | form form => exact embeds_formBody form
  | expression power => exact embeds_expression power
  | continuation left power => exact (embeds_continuation power (hid left)).inside
  | suffix suffix left power =>
    have : Related (Like f) (left + f.before.length) left := ⟨hid left⟩
    cases suffix with
    | binary => exact embeds_binary power (hid left)
    | call =>
      exact Embeds.inside (inferInstanceAs (Embeds f f.Admits (call run _) (call run' left)))
    | index =>
      exact Embeds.inside (inferInstanceAs (Embeds f f.Admits (index run _) (index run' left)))
    | member => exact Embeds.inside (inferInstanceAs (Embeds f f.Admits (member _) (member left)))
  | tuple construct =>
    exact Embeds.inside (inferInstanceAs
      (Embeds f (When True) (tuple run construct) (tuple run' construct)))
  | pattern form b =>
    cases form with
    | any => exact embeds_pattern b
    | rest =>
      exact Embeds.inside (inferInstanceAs
        (Embeds f (When False) (restPattern run) (restPattern run')))
    | named => exact embeds_namedPattern b
    | identifier =>
      exact Embeds.inside (inferInstanceAs
        (Embeds f (When False) (identifierPattern run b) (identifierPattern run' b)))
    | tuple =>
      exact Embeds.inside (inferInstanceAs
        (Embeds f (When True) (tuplePattern run) (tuplePattern run')))
    | enum =>
      exact Embeds.inside (inferInstanceAs
        (Embeds f (When True) (enumPattern run) (enumPattern run')))
    | literal =>
      exact Embeds.inside (inferInstanceAs
        (Embeds f (When False) (literalPattern run) (literalPattern run')))

end

instance embeds_runWith (f : Site) (n m : Nat) :
    EmbedsRules f (Rule.runWith n) (Rule.runWith m) := by
  induction m generalizing n with
  | zero =>
    exact ⟨fun _ => ⟨fun _ _ _ _ _ _ _ hd _ => by cases hd⟩,
      fun _ _ => ⟨fun _ _ _ _ _ _ hd _ => by cases hd⟩⟩
  | succ m ih =>
    cases n with
    | zero =>
      exact ⟨fun _ => ⟨fun _ _ _ _ _ _ _ _ _ => .exhausted⟩,
        fun _ _ => ⟨fun _ _ _ _ _ _ _ _ => .exhausted⟩⟩
    | succ n => exact ⟨fun hl => embeds_ruleBody hl, fun power hl => embeds_continuation power hl⟩

end Smaug.Parse
