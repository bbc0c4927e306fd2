import Mathlib
import Smaug.Proofs.Parse.Embed.Rules

/-! # Statements in a piece that is put into an input

The statements end with expressions or statements of theirs, so what they leave to what stands
behind the piece is what these leave to it.  Where a rule looks ahead, it sees the end of the piece
as little as what stands there.
-/

namespace Smaug.Parse

open Grammar

class Last (shape : Shape) (part : NodeId) : Prop where
  last : shape.last? = some part

section
variable {i j k : NodeId} {is : List NodeId}

instance : Last (.doStatement i) i := ⟨rfl⟩
instance : Last (.retryCase i) i := ⟨rfl⟩
instance : Last (.returnStatement i) i := ⟨rfl⟩
instance : Last (.yieldStatement i) i := ⟨rfl⟩
instance : Last (.each j i) i := ⟨rfl⟩
instance : Last (.eachRange j k i) i := ⟨rfl⟩
instance : Last (.letVariable j i) i := ⟨rfl⟩
instance : Last (.batchAttributes is i) i := ⟨rfl⟩

end

section
variable {f : Site} {run run' : Rule → Parse NodeId} [∀ rule, Keeps (run' rule)] [Passing run']
  [EmbedsRules f run run']
set_option synthInstance.maxSize 2048

instance {shape shape' : NodeId → Shape} {start start' : Nat} {step step' : Parse NodeId}
    [Keeps step'] [h : Embeds f f.Admits step step']
    [hs : ∀ pair : Pair (Like f (α := NodeId)),
      Related (Like f) (shape pair.left) (shape' pair.right)]
    [hl : ∀ i, Last (shape' i) i] :
    Embeds f f.Admits (step >>= fun i => pushFrom start (shape i))
      (step' >>= fun i => pushFrom start' (shape' i)) := by
  refine embeds_last h (fun i => inferInstance) (fun i i' hi => ?_) ?_
  · have : Related (Like f) (shape i) (shape' i') := hs ⟨i, i', hi⟩
    infer_instance
  · rintro i setup c c' value - - hd hq
    obtain ⟨rfl, rfl⟩ := pushFrom_done.1 hd
    exact hq.last (hl i).last

instance (priority := low) {step step' : Parse NodeId} [h : Embeds f f.Admits step step'] :
    Embeds f (When False) step step' := h.mono fun _ _ h => h.elim

omit [EmbedsRules f run run'] in
instance : Passes (statementOrBlock run') := by
  unfold statementOrBlock
  infer_instance

instance : Embeds f f.Admits (statementOrBlock run) (statementOrBlock run') :=
  EmbedsInside.of_passes (embedsInside_isAt fun _ => embedsInside_ite (Embeds.inside inferInstance)
    (Embeds.inside inferInstance))

theorem embeds_elseBranch :
    Embeds f (fun o c => ∀ i, o = some i → f.Admits i c) (elseBranch run) (elseBranch run') := by
  refine Embeds.bind (P := When True) (inferInstanceAs (Embeds f _ (eatWord "else") _))
    (fun b b' hb => ?_) fun _ _ _ _ _ _ _ _ _ _ => trivial
  obtain rfl : b = b' := hb
  cases b with
  | true =>
    exact embeds_some (P := f.Admits) (inferInstanceAs (Embeds f f.Admits (value run) (value run')))
      fun i c h => h i rfl
  | false => exact embeds_pure rfl

omit [∀ rule, Keeps (run' rule)] [Passing run'] [EmbedsRules f run run'] in
theorem elseBranch_end {setup : Setup} {c c' : State} {o : Option NodeId} (hc : c.kind = .eof)
    (hd : elseBranch run' setup c = .done o c') : o = none ∧ c' = c := by
  have hw : c.current.isWord "else" = false :=
    isWord_of_kind (by rw [show c.current.kind = .eof from hc]; decide) _
  rcases optionally_done.1 hd with ⟨_, _, hb, -⟩ | ⟨hb, rfl⟩
  · rw [← (eatWord_done.1 hb).1] at hw
    cases hw
  · obtain ⟨-, rfl⟩ := eatWord_done.1 hb
    simp [hw]

instance (start start' : Nat) : Embeds f f.Admits (letVariable run start) (letVariable run' start') := by
  unfold letVariable
  infer_instance

theorem embeds_doStatement : EmbedsInside f f.Admits (doStatement run) (doStatement run') :=
  embedsInside_advance fun _ _ _ => inferInstance

theorem embeds_returnStatement :
    EmbedsInside f f.Admits (returnStatement run) (returnStatement run') :=
  embedsInside_advance fun _ _ _ => inferInstance

instance : Embeds f (When False) (attributeList run) (attributeList run') := by
  refine EmbedsInside.of_keeps (embedsInside_isAt fun b => embedsInside_ite (Embeds.inside ?_)
    (Embeds.inside inferInstance))
  have : Embeds f (When False)
      (do
        if ← isAt .yieldWord then
          let start := (← advance).span.start
          let type ← typeExpression run
          let item ← pushFrom start (.yieldAttribute type)
          return some (item, ← eat .comma)
        else return none)
      (do
        if ← isAt .yieldWord then
          let start := (← advance).span.start
          let type ← typeExpression run'
          let item ← pushFrom start (.yieldAttribute type)
          return some (item, ← eat .comma)
        else return none) :=
    EmbedsInside.of_keeps (embedsInside_isAt fun b => embedsInside_ite
      (embedsInside_advance fun _ _ _ => inferInstance) (Embeds.inside inferInstance))
  infer_instance

instance : Embeds f (When False) (signatureAttributes run) (signatureAttributes run') := by
  refine EmbedsInside.of_keeps (embedsInside_look_bind
    (fun hs hc => by rw [hs.kind hc]; rfl) fun b b' hb => ?_)
  obtain rfl : b = b' := hb
  exact embedsInside_ite (Embeds.inside inferInstance) (Embeds.inside inferInstance)

instance : Embeds f (When False) (signature run) (signature run') := by
  unfold signature
  infer_instance

instance : Embeds f (When False) (moreAttributes run) (moreAttributes run') := by
  unfold moreAttributes
  infer_instance

/-- What a branch leaves to the end of the piece, where none follows it. -/
theorem embeds_branches (shape shape' : NodeId → Option NodeId → Shape) {start start' : Nat}
    {step step' : Parse NodeId} [Keeps step'] [h : Embeds f f.Admits step step']
    (hs : ∀ i i', Like f i i' → ∀ o o', Like f o o' → Like f (shape i o) (shape' i' o'))
    (hl : ∀ i o, (shape' i o).last? = some (o.getD i)) :
    Embeds f f.Admits
      (step >>= fun i => elseBranch run >>= fun o => pushFrom start (shape i o))
      (step' >>= fun i => elseBranch run' >>= fun o => pushFrom start' (shape' i o)) := by
  refine embeds_last h (fun i => inferInstance) (fun i i' hi => ?_) ?_
  · refine embeds_last embeds_elseBranch (fun o => inferInstance) (fun o o' ho => ?_) ?_
    · have : Related (Like f) (shape i o) (shape' i' o') := ⟨hs i i' hi o o' ho⟩
      infer_instance
    · rintro o setup c c' value - - hd hq j rfl
      obtain ⟨rfl, rfl⟩ := pushFrom_done.1 hd
      exact hq.last (hl i' (some j))
  · rintro i setup c c' value - hc hd hq
    obtain ⟨o, c₁, he, hp⟩ := bind_done.1 hd
    obtain ⟨rfl, rfl⟩ := elseBranch_end hc he
    obtain ⟨rfl, rfl⟩ := pushFrom_done.1 hp
    exact hq.last (hl i none)

theorem embeds_ifStatement : EmbedsInside f f.Admits (ifStatement run) (ifStatement run') := by
  refine embedsInside_advance fun token token' _ => EmbedsInside.of_passes
    (embedsInside_isAt fun b => embedsInside_ite (embedsInside_advance fun _ _ _ => ?_)
      (Embeds.inside ?_))
  · refine embeds_next inferInstance (fun _ => inferInstance) (fun _ => inferInstance)
      fun binding binding' hb => embeds_branches (.ifLet binding) (.ifLet binding')
        (fun i i' hi o o' ho => ?_) fun _ _ => rfl
    exact (congr (congrArg₂ Shape.ifLet hb hi) ho :)
  · refine embeds_next inferInstance (fun _ => inferInstance) (fun _ => inferInstance)
      fun condition condition' hb => embeds_branches (.ifStatement condition)
        (.ifStatement condition') (fun i i' hi o o' ho => ?_) fun _ _ => rfl
    exact (congr (congrArg₂ Shape.ifStatement hb hi) ho :)

theorem embeds_body (note : String) (expected : List Expected) :
    Embeds f (fun b c => f.Admits b.node c) (body run note expected) (body run' note expected) := by
  refine EmbedsInside.of_passes (embedsInside_kind fun kind => ?_)
  split
  · refine embedsInside_advance fun _ _ _ => embeds_last (P := f.Admits) inferInstance
      (fun _ => inferInstance) (fun i i' hi => embeds_pure (congrArg Body.value hi)) ?_
    rintro i setup c c' value - - hd hq
    obtain ⟨rfl, rfl⟩ := pure_done.1 hd
    exact hq
  · refine Embeds.inside (embeds_last (P := f.Admits) inferInstance
      (fun _ => inferInstance) (fun i i' hi => embeds_pure (congrArg Body.block hi)) ?_)
    rintro i setup c c' value - - hd hq
    obtain ⟨rfl, rfl⟩ := pure_done.1 hd
    exact hq
  · exact Embeds.inside inferInstance

instance (note : String) (expected : List Expected) :
    Embeds f (When False) (body run note expected) (body run' note expected) :=
  (embeds_body note expected).mono fun _ _ h => h.elim

instance : Embeds f (When False) (casePattern run) (casePattern run') := by
  unfold casePattern
  infer_instance

instance : Embeds f (When False) (matchCase run) (matchCase run') := by
  unfold matchCase
  infer_instance

theorem embeds_matchStatement {P : NodeId → State → Prop} :
    EmbedsInside f P (matchStatement run) (matchStatement run') :=
  embedsInside_advance fun _ _ _ => inferInstance

instance (start start' : Nat) :
    Embeds f f.Admits (letFunction run start) (letFunction run' start') := by
  unfold letFunction
  refine Embeds.bind (P := When True) inferInstance (fun name name' hn => ?_)
    fun _ _ _ _ _ _ _ _ _ _ => trivial
  refine embeds_next inferInstance (fun _ => inferInstance) (fun _ => inferInstance)
    fun signature signature' hs => ?_
  refine embeds_last (embeds_body _ _) (fun _ => inferInstance) (fun body body' hb => ?_) ?_
  · have : Related (Like f) (Shape.letFunction name signature body)
        (.letFunction name' signature' body') :=
      ⟨(congr (congrArg₂ Shape.letFunction hn hs) hb :)⟩
    infer_instance
  · rintro body setup c c' value - - hd hq
    obtain ⟨rfl, rfl⟩ := pushFrom_done.1 hd
    exact hq.last rfl

instance {P : NodeId → State → Prop} (start start' : Nat) :
    Embeds f P (letStruct run start) (letStruct run' start') := by
  unfold letStruct
  infer_instance

instance {P : NodeId → State → Prop} (start start' : Nat) :
    Embeds f P (letEnum run start) (letEnum run' start') := by
  unfold letEnum
  infer_instance

end

end Smaug.Parse
