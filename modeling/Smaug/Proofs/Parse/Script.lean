import Smaug.Parse.Parsed
import Smaug.Proofs.Parse.Kept

/-! # What the rules are made of

Every rule is put together from a few single moves: passing a token, adding a node, going back to a
mark, going a level deeper.  A script says how, and what holds of every way to put steps together is
proved by induction on it: every error names the file.  From a script one also reads which states a
run goes through, those included that are taken back.
-/

namespace Smaug.Parse

/-- A step that makes an error about a token of the source, and leaves the state as it is. -/
class MakesError (error : Parse Error) : Prop where
  makes (setup : Setup) (s : State) :
    ∃ e, error setup s = .done e s ∧ e.file = some setup.file ∧ e.classify = .syntactic

instance (token : String) (span : Span) (expected : List Expected) :
    MakesError (errorAt (.numberTooLarge token) span expected) :=
  ⟨fun _ _ => ⟨_, rfl, rfl, rfl⟩⟩

instance (span : Span) (expected : List Expected) :
    MakesError (errorAt .emptyAttributeList span expected) := ⟨fun _ _ => ⟨_, rfl, rfl, rfl⟩⟩

instance (expected : List Expected) (note : Option String) :
    MakesError (unexpected expected note) where
  makes setup s := by
    refine ⟨_, rfl, rfl, ?_⟩
    simp only [Error.classify]
    split <;> rfl

instance (expected : Expected) : MakesError (misplaced expected) where
  makes setup s := by
    cases hr : s.current.kind.isReserved with
    | true =>
      refine ⟨⟨.reservedWord s.current.value, s.current.span, [expected], some setup.file⟩, ?_,
        rfl, rfl⟩
      simp [misplaced, Bind.bind, Parse.bind, look, hr, errorAt, given]
    | false =>
      obtain ⟨e, he, hf, hc⟩ := (inferInstance : MakesError (unexpected [expected])).makes setup s
      refine ⟨e, ?_, hf, hc⟩
      simp only [misplaced, Bind.bind, Parse.bind, look, hr, Bool.false_eq_true, if_false]
      exact he

/-- How a step is put together. -/
class inductive Script : {α : Type} → Parse α → Type 1
  | pure {α : Type} (value : α) : Script (pure value)
  | look {α : Type} (f : State → α) : Script (look f)
  | given {α : Type} (f : Setup → α) : Script (given f)
  | refuse {α : Type} {error : Parse Error} (h : MakesError error) :
      Script (do refuse (← error) : Parse α)
  | exhausted {α : Type} : Script (stop .exhausted : Parse α)
  | advance : Script advance
  | push (shape : Shape) (span : Span) : Script (push shape span)
  | node (id : NodeId) : Script (node id)
  | reset (mark : Mark) : Script (change (·.reset mark))
  | bind {α β : Type} {step : Parse α} {next : α → Parse β} (first : Script step)
      (rest : ∀ a, Script (next a)) : Script (step >>= next)
  | inside {α : Type} {step : Parse α} (delimiter : Char) (construct : String) (opening : Span)
      (script : Script step) : Script (inside delimiter construct opening step)
  | attempt {α : Type} {step : Parse α} (script : Script step) : Script (attempt step)
  | nested {α : Type} {step : Parse α} (script : Script step) : Script (nested step)

namespace Script

attribute [instance] pure look given exhausted advance push node reset

variable {α β : Type}

/-! ## Steps -/

section
variable {step : Parse α}

instance {next : α → Parse β} [h : Script step] [hn : ∀ a, Script (next a)] :
    Script (step >>= next) := .bind h hn

instance {error : Parse Error} [h : MakesError error] :
    Script (do Parse.refuse (← error) : Parse α) := .refuse h

instance (f : α → β) [h : Script step] : Script (f <$> step) := .bind h fun _ => .pure _

instance {c : Prop} [hc : Decidable c] {other : Parse α} [h : Script step] [ho : Script other] :
    Script (if c then step else other) :=
  match hc with
  | .isTrue _ => h
  | .isFalse _ => ho

instance (delimiter : Char) (construct : String) (opening : Span) [h : Script step] :
    Script (Parse.inside delimiter construct opening step) := .inside _ _ _ h

instance [h : Script step] : Script (Parse.attempt step) := .attempt h

instance instIterate {turn : α → Parse (Turn α β)} [h : ∀ a, Script (turn a)] :
    (turns : Nat) → (a : α) → Script (iterate turn turns a)
  | 0, _ => .exhausted
  | turns + 1, a => .bind (h a) fun
    | .again a => instIterate turns a
    | .finish _ => .pure _

instance {step : Parse (Option (α × Bool))} [h : Script step] : Script (collect step) :=
  .bind (.look _) fun n => @instIterate _ _ _ (fun _ => .bind h fun
    | none => .pure _
    | some (_, true) => .pure _
    | some (_, false) => .pure _) (n + 1) []

end

/-! ## Tokens and nodes -/

instance (kind : Token.Kind) : Script (isAt kind) := .look _

instance (kind : Token.Kind) : Script (eat kind) := .bind inferInstance fun _ => inferInstance

instance (word : String) : Script (eatWord word) := .bind inferInstance fun _ => inferInstance

instance {sign : Parse Bool} {step : Parse α} [Script sign] [Script step] :
    Script (optionally sign step) := .bind inferInstance fun _ => inferInstance

instance (kind : Token.Kind) {error : Parse Error} [MakesError error] :
    Script (expectOr kind error) := .bind inferInstance fun _ => inferInstance

instance (kind : Token.Kind) : Script (expect kind) :=
  (inferInstance : Script (expectOr kind (unexpected [.token kind])))

instance (start : Nat) (shape : Shape) : Script (pushFrom start shape) :=
  .bind inferInstance fun _ => inferInstance

instance (id : NodeId) : Script (spanOf id) := .bind inferInstance fun _ => inferInstance

/-! ## Names and lists -/

instance : Script name := .bind inferInstance fun _ => inferInstance

instance : Script path := .bind inferInstance fun _ => inferInstance

instance (close : Token.Kind) {element : Parse NodeId} [Script element] :
    Script (delimited close element) := .bind inferInstance fun _ => inferInstance

instance {item : Parse NodeId} [Script item] : Script (bracedItems item) :=
  (inferInstance : Script (collect _))

/-! ## Rules -/

instance : Script primary := .bind (.look _) fun ⟨kind, value, _⟩ => by
  cases kind with
  | integer => exact match Text.integer? value with
    | some _ => inferInstance
    | none => inferInstance
  | _ => infer_instance

instance : Script importStatement := .bind inferInstance fun _ => inferInstance

instance (left : NodeId) : Script (member left) := .bind inferInstance fun _ => inferInstance

instance : Script externalModule := .bind inferInstance fun _ => inferInstance

instance : Script external := .bind inferInstance fun _ => inferInstance

section
variable {run : Rule → Parse NodeId} [∀ rule, Script (run rule)]
set_option synthInstance.maxSize 512

instance : Script (value run) := (inferInstance : Script (run _))

instance : Script (typeExpression run) := (inferInstance : Script (run _))

instance : Script (operand run) :=
  .bind inferInstance fun kind => .bind inferInstance fun table =>
    match table.operand kind with
    | some _ => inferInstance
    | none => inferInstance

instance (power : Power) : Script (expression run power) := .nested inferInstance

instance (left : NodeId) (power : Power) : Script (continuation run left power) :=
  .bind (.look _) fun n => @instIterate _ _ _
    (fun _ => .bind inferInstance fun table => .bind inferInstance fun kind =>
      match table.suffix kind with
      | some _ => inferInstance
      | none => inferInstance) (n + 1) left

instance : Script (unary run) := .bind inferInstance fun _ => inferInstance

instance (left : NodeId) (power : Power) : Script (binary run left power) :=
  .bind inferInstance fun kind =>
    match BinaryOp.ofKind? kind with
    | some _ => inferInstance
    | none => inferInstance

instance (left : NodeId) : Script (call run left) := .bind inferInstance fun _ => inferInstance

instance (left : NodeId) : Script (index run left) := .bind inferInstance fun _ => inferInstance

instance : Script (grouping run) := .bind inferInstance fun _ => inferInstance

instance (construct : String) : Script (tuple run construct) :=
  .bind inferInstance fun _ => inferInstance

instance : Script (array run) := .bind inferInstance fun _ => inferInstance

instance (construct : String) (opening : Span) :
    Script (bracedStatements run construct opening) := .inside _ _ _ inferInstance

instance : Script (block run) := .bind inferInstance fun _ => inferInstance

instance (allowDefault : Bool) : Script (pattern run allowDefault) :=
  .nested (.bind inferInstance fun table => .bind inferInstance fun kind =>
    match table.pattern kind with
    | some _ => inferInstance
    | none => inferInstance)

instance : Script (restPattern run) := .bind inferInstance fun _ => inferInstance

instance (allowDefault : Bool) : Script (namedPattern run allowDefault) :=
  .bind inferInstance fun _ => inferInstance

instance : Script (annotatedType run) := (inferInstance : Script (optionally _ _))

instance (allowDefault : Bool) : Script (identifierPattern run allowDefault) :=
  .bind inferInstance fun _ => inferInstance

instance : Script (tuplePattern run) := .bind inferInstance fun _ => inferInstance

instance : Script (enumPattern run) := .bind inferInstance fun _ => inferInstance

instance : Script (literalPattern run) := .bind inferInstance fun _ => inferInstance

instance : Script (attributeList run) := .bind inferInstance fun _ => inferInstance

instance : Script (signatureAttributes run) := .bind inferInstance fun _ => inferInstance

instance : Script (signature run) := .bind inferInstance fun _ => inferInstance

instance : Script (statement run) :=
  .bind inferInstance fun table => .bind inferInstance fun kind =>
    match table.statement kind with
    | some _ => inferInstance
    | none => inferInstance

instance : Script (statementOrBlock run) := .bind inferInstance fun _ => inferInstance

instance : Script (elseBranch run) := (inferInstance : Script (optionally _ _))

instance (start : Nat) : Script (letVariable run start) :=
  .bind inferInstance fun _ => inferInstance

instance : Script (doStatement run) := .bind inferInstance fun _ => inferInstance

instance : Script (returnStatement run) := .bind inferInstance fun _ => inferInstance

instance : Script (statementList run) := .bind inferInstance fun _ => inferInstance

instance : Script (moreAttributes run) := .bind inferInstance fun _ => inferInstance

instance : Script (yieldStatement run) := .bind inferInstance fun _ => inferInstance

instance : Script (ifStatement run) := .bind inferInstance fun _ => inferInstance

instance : Script (rangeHead run) := .bind inferInstance fun b => by
  have (mark : Mark) (opening : Span) (head : Option NodeId) : Script (match head with
      | some pattern => do
        if ← eat .inWord then return some (opening, pattern)
        else
          change (·.reset mark)
          return none
      | none => do
        change (·.reset mark)
        return none : Parse (Option (Span × NodeId))) :=
    match head with
    | some _ => inferInstance
    | none => inferInstance
  infer_instance

instance : Script (eachStatement run) :=
  .bind inferInstance fun _ => .bind inferInstance fun head =>
    match head with
    | some _ => inferInstance
    | none => inferInstance

instance (note : String) (expected : List Expected) : Script (body run note expected) :=
  .bind inferInstance fun kind => by
    cases kind <;> infer_instance

instance : Script (casePattern run) := .bind inferInstance fun _ => inferInstance

instance : Script (matchCase run) := .bind inferInstance fun _ => inferInstance

instance : Script (matchStatement run) := .bind inferInstance fun _ => inferInstance

instance (start : Nat) : Script (letFunction run start) :=
  .bind inferInstance fun _ => inferInstance

instance (start : Nat) : Script (letStruct run start) := .bind inferInstance fun _ => inferInstance

instance (start : Nat) : Script (letEnum run start) := .bind inferInstance fun _ => inferInstance

instance : Script (letStatement run) :=
  .bind inferInstance fun _ => .bind inferInstance fun kind => by
    cases kind <;> infer_instance

instance : (form : Form) → Script (form.body run)
  | .statement => (inferInstance : Script (Parse.statement run))
  | .importStatement => (inferInstance : Script Parse.importStatement)
  | .doStatement => (inferInstance : Script (Parse.doStatement run))
  | .returnStatement => (inferInstance : Script (Parse.returnStatement run))
  | .yieldStatement => (inferInstance : Script (Parse.yieldStatement run))
  | .ifStatement => (inferInstance : Script (Parse.ifStatement run))
  | .eachStatement => (inferInstance : Script (Parse.eachStatement run))
  | .matchStatement => (inferInstance : Script (Parse.matchStatement run))
  | .letStatement => (inferInstance : Script (Parse.letStatement run))
  | .typeExpression => (inferInstance : Script (Parse.typeExpression run))
  | .primary => (inferInstance : Script Parse.primary)
  | .unary => (inferInstance : Script (Parse.unary run))
  | .grouping => (inferInstance : Script (Parse.grouping run))
  | .array => (inferInstance : Script (Parse.array run))
  | .block => (inferInstance : Script (Parse.block run))
  | .signature => (inferInstance : Script (Parse.signature run))

instance (left : NodeId) (power : Power) : (suffix : Suffix) → Script (suffix.body run left power)
  | .binary => (inferInstance : Script (Parse.binary run left power))
  | .call => (inferInstance : Script (Parse.call run left))
  | .index => (inferInstance : Script (Parse.index run left))
  | .member => (inferInstance : Script (Parse.member left))

instance (allowDefault : Bool) : (form : PatternForm) → Script (form.body run allowDefault)
  | .any => (inferInstance : Script (Parse.pattern run allowDefault))
  | .rest => (inferInstance : Script (Parse.restPattern run))
  | .named => (inferInstance : Script (Parse.namedPattern run allowDefault))
  | .identifier => (inferInstance : Script (Parse.identifierPattern run allowDefault))
  | .tuple => (inferInstance : Script (Parse.tuplePattern run))
  | .enum => (inferInstance : Script (Parse.enumPattern run))
  | .literal => (inferInstance : Script (Parse.literalPattern run))

instance : (rule : Rule) → Script (rule.body run)
  | .form form => (inferInstance : Script (form.body run))
  | .expression power => (inferInstance : Script (Parse.expression run power))
  | .continuation left power => (inferInstance : Script (Parse.continuation run left power))
  | .suffix operator left power => (inferInstance : Script (operator.body run left power))
  | .tuple owner => (inferInstance : Script (Parse.tuple run owner))
  | .pattern form allowDefault => (inferInstance : Script (form.body run allowDefault))

end

instance instRunWith : (fuel : Nat) → (rule : Rule) → Script (Rule.runWith fuel rule)
  | 0, _ => .exhausted
  | fuel + 1, rule =>
    have (rule : Rule) : Script (Rule.runWith fuel rule) := instRunWith fuel rule
    (inferInstance : Script (rule.body (Rule.runWith fuel)))

instance : Script header := .bind inferInstance fun _ => inferInstance

/-! ## Errors -/

/-- Every error of a step names the file. -/
theorem file {step : Parse α} (script : Script step) {setup : Setup} {s s' : State} {error : Error}
    (h : step setup s = .stopped (.error error) s') : error.file = some setup.file := by
  induction script generalizing s s' error with
  | pure | look | given | exhausted | advance | push | reset => cases h
  | @refuse _ step hm =>
    obtain ⟨e, he, hf, -⟩ := hm.makes setup s
    change Parse.bind step _ setup s = _ at h
    simp only [Parse.bind, he] at h
    cases h
    exact hf
  | node id =>
    unfold Parse.node at h
    split at h <;> cases h
  | @bind _ _ step next first rest ihf ihr =>
    change Parse.bind step next setup s = _ at h
    unfold Parse.bind at h
    cases ho : step setup s with
    | done a s₁ =>
      rw [ho] at h
      exact ihr a h
    | stopped why s₁ =>
      rw [ho] at h
      cases h
      exact ihf ho
  | @inside _ step delimiter construct opening script ih =>
    unfold Parse.inside mapError at h
    split at h
    · rename_i error' s₁ ho
      cases h
      rw [← ih ho]
      change (error'.inside delimiter construct opening).file = error'.file
      unfold Error.inside
      split <;> rfl
    · exact ih h
  | @attempt _ step script ih =>
    unfold Parse.attempt at h
    split at h
    · cases h
    · cases h
    · rename_i why s₁ hne ho
      cases h
      exact absurd rfl (hne error)
  | @nested _ step script ih =>
    rw [nested_apply] at h
    split at h
    · split at h
      · cases h
      · rename_i ho
        cases h
        exact ih ho
      · rename_i ho
        cases h
        exact ih ho
    · cases h
      rfl

/-! ## What a step goes through -/

def trace : {α : Type} → {step : Parse α} → Script step → Setup → State → List State
  | _, _, .pure _, _, _ | _, _, .look _, _, _ | _, _, .given _, _, _ | _, _, .refuse _, _, _
  | _, _, .exhausted, _, _ | _, _, .node _, _, _ => []
  | _, _, .advance, _, s => [s.advance]
  | _, _, .push shape span, _, s => [s.push ⟨shape, span⟩]
  | _, _, .reset mark, _, s => [s.reset mark]
  | _, _, @bind _ _ step _ first rest, setup, s =>
    first.trace setup s ++
      match step setup s with
      | .done a s' => (rest a).trace setup s'
      | .stopped .. => []
  | _, _, .inside _ _ _ script, setup, s => script.trace setup s
  | _, _, .attempt script, setup, s => script.trace setup s
  | _, _, @nested _ step script, setup, s =>
    if s.depth < setup.maxDepth then
      s.deeper :: (script.trace setup s.deeper ++
        match step setup s.deeper with
        | .done _ s' | .stopped (.error _) s' => [s'.leave]
        | .stopped .. => [])
    else []

/-- What holds at every state of a step and of what follows it holds at those of both. -/
theorem mem_bind_trace {step : Parse α} {next : α → Parse β} {first : Script step}
    {rest : ∀ a, Script (next a)} {setup : Setup} {s : State} {P : State → Prop}
    (hf : ∀ t ∈ first.trace setup s, P t)
    (hr : ∀ a s', step setup s = .done a s' → ∀ t ∈ (rest a).trace setup s', P t) :
    ∀ t ∈ (Script.bind first rest).trace setup s, P t := by
  intro t ht
  rw [trace] at ht
  rcases List.mem_append.1 ht with ht | ht
  · exact hf t ht
  · cases hd : step setup s with
    | done a s' =>
      rw [hd] at ht
      exact hr a s' hd t ht
    | stopped why s' =>
      rw [hd] at ht
      cases ht

end Script
end Smaug.Parse
