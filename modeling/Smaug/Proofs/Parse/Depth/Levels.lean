import Mathlib
import Smaug.Proofs.Parse.Depth.Basic
import Smaug.Proofs.Parse.Stages
import Smaug.Proofs.Parse.Turns

/-! # Levels enough for the tokens left

Between one level of nesting and the next a token is passed.  So the limit is not met where as many
levels are left as tokens.  A rule that enters a level at once needs all of these; any other rule can
do with one less, since it passes a token first.
-/

namespace Smaug

/-- The number of levels that a rule can lack: none if it enters a level at once. -/
def Rule.spare : Rule → Nat
  | .expression _ | .pattern .any _ | .form .typeExpression => 0
  | _ => 1

/-- A rule that can be called at every token, and passes one before it enters a level. -/
class Rule.Late (rule : Rule) : Prop extends rule.Free where
  spare : rule.spare = 1

namespace Rule

instance : Late (.form .statement) := ⟨rfl⟩
instance : Late (.form .primary) := ⟨rfl⟩
instance : Late (.form .array) := ⟨rfl⟩
instance (construct : String) : Late (.tuple construct) := ⟨rfl⟩
instance (b : Bool) : Late (.pattern .identifier b) := ⟨rfl⟩
instance (b : Bool) : Late (.pattern .tuple b) := ⟨rfl⟩
instance (b : Bool) : Late (.pattern .enum b) := ⟨rfl⟩

end Rule

namespace Parse

open Grammar

def Outcome.MeetsLimit : Outcome α → Prop
  | .stopped (.error error) _ => error.classify = .resource
  | .done .. | .stopped .. => False

theorem Outcome.MeetsLimit.stopped {why : Stop} {s s' : State}
    (h : (.stopped why s : Outcome α).MeetsLimit) : (.stopped why s' : Outcome β).MeetsLimit := by
  cases why <;> exact h

/-- As many levels of nesting are left as tokens, but for a number that is lacking. -/
structure State.Roomy (setup : Setup) (lacking : Nat) (s : State) : Prop where
  ended : s.Ended
  levels : s.depth + s.remaining ≤ setup.maxDepth + lacking

namespace State.Roomy

variable {setup : Setup} {lacking : Nat} {s s' : State}

theorem mono {more : Nat} (hs : s.Roomy setup lacking) (h : lacking ≤ more) :
    s.Roomy setup more where
  ended := hs.ended
  levels := by
    have := hs.levels
    omega

theorem kept (hs : s.Roomy setup lacking) (h : Kept s s') : s'.Roomy setup lacking where
  ended := hs.ended.grow h.toGrown
  levels := by
    have := hs.levels
    have := h.remaining_le
    have := h.depth
    omega

/-- Each token passed makes up for a level. -/
theorem passed (hs : s.Roomy setup (lacking + 1)) (h : Kept s s')
    (hl : s'.remaining < s.remaining) : s'.Roomy setup lacking where
  ended := hs.ended.grow h.toGrown
  levels := by
    have := hs.levels
    have := h.depth
    omega

theorem deeper (hs : s.Roomy setup lacking) : s.deeper.Roomy setup (lacking + 1) where
  ended := hs.ended
  levels := by
    have hl := hs.levels
    simp only [State.deeper, State.remaining] at hl ⊢
    omega

theorem lt (hs : s.Roomy setup 0) : s.depth < setup.maxDepth := by
  have := hs.levels
  have := s.remaining_pos
  omega

end State.Roomy

/-- A step that does not meet the limit where it lacks so many levels at most. -/
class Unlimited (lacking : Nat) (step : Parse α) : Prop where
  unlimited {setup : Setup} {s : State} (ht : setup.table = .standard)
    (hs : s.Roomy setup lacking) : ¬(step setup s).MeetsLimit

theorem unlimited (lacking : Nat) (step : Parse α) [h : Unlimited lacking step] {setup : Setup}
    {s : State} (ht : setup.table = .standard) (hs : s.Roomy setup lacking) :
    ¬(step setup s).MeetsLimit := h.unlimited ht hs

/-! ## Steps -/

section
variable {lacking : Nat} {step : Parse α} {setup : Setup} {s : State}

theorem Unlimited.of_shallow (step : Parse α) [h : Shallow step] : Unlimited lacking step where
  unlimited {setup s} _ _ hm := by
    cases ho : step setup s with
    | done value s' =>
      rw [ho] at hm
      exact hm
    | stopped why s' =>
      rw [ho] at hm
      cases why with
      | error error =>
        have hc : error.classify = .resource := hm
        rw [h.shallow ho] at hc
        cases hc
      | missingNode | exhausted => exact hm

theorem bind_unlimited {next : α → Parse β} (h : ¬(step setup s).MeetsLimit)
    (hn : ∀ a s', step setup s = .done a s' → ¬(next a setup s').MeetsLimit) :
    ¬((step >>= next) setup s).MeetsLimit := by
  change ¬(Parse.bind step next setup s).MeetsLimit
  unfold Parse.bind
  cases ho : step setup s with
  | done a s' => exact hn a s' ho
  | stopped why s' =>
    rw [ho] at h
    exact fun hm => h hm.stopped

theorem look_bind_unlimited {f : State → α} {next : α → Parse β}
    (h : ¬(next (f s) setup s).MeetsLimit) : ¬((look f >>= next) setup s).MeetsLimit := h

theorem given_bind_unlimited {f : Setup → α} {next : α → Parse β}
    (h : ¬(next (f setup) setup s).MeetsLimit) : ¬((given f >>= next) setup s).MeetsLimit := h

theorem advance_bind_unlimited {next : Token → Parse β} [hn : ∀ token, Unlimited 0 (next token)]
    (ht : setup.table = .standard) (hs : s.Roomy setup 1) (hk : s.hasTokens) :
    ¬((advance >>= next) setup s).MeetsLimit :=
  (hn s.current).unlimited ht (hs.passed (.advance s) (hs.ended.remaining_advance hk))

theorem unlimited_bind (step : Parse α) [Keeps step] [hs : Unlimited lacking step]
    {next : α → Parse β} (hn : ∀ a, Unlimited lacking (next a)) :
    Unlimited lacking (step >>= next) where
  unlimited ht hr := bind_unlimited (hs.unlimited ht hr) fun a _ ho =>
    (hn a).unlimited ht (hr.kept (kept_of_done ho))

instance {next : α → Parse β} [Keeps step] [Unlimited lacking step]
    [hn : ∀ a, Unlimited lacking (next a)] : Unlimited lacking (step >>= next) :=
  unlimited_bind step hn

/-- After a step that passes a token no level is lacking any more. -/
instance (priority := high) {next : α → Parse β} [Keeps step] [Passes step]
    [hs : Unlimited 1 step] [hn : ∀ a, Unlimited 0 (next a)] : Unlimited 1 (step >>= next) where
  unlimited ht hr := bind_unlimited (hs.unlimited ht hr) fun a _ ho =>
    (hn a).unlimited ht (hr.passed (kept_of_done ho) (passes step ht hr.ended ho))

instance (value : α) : Unlimited lacking (pure value) := .of_shallow _

instance (f : State → α) : Unlimited lacking (look f) := .of_shallow _

instance (f : Setup → α) : Unlimited lacking (given f) := ⟨fun _ _ => id⟩

instance : Unlimited lacking advance := .of_shallow _

instance (shape : Shape) (span : Span) : Unlimited lacking (push shape span) := .of_shallow _

instance (id : NodeId) : Unlimited lacking (node id) where
  unlimited {setup s} _ _ := by
    unfold node
    split <;> exact fun hm => hm

instance {error : Parse Error} [MakesError error] :
    Unlimited lacking (do refuse (← error) : Parse α) := .of_shallow _

instance (f : α → β) [Keeps step] [Unlimited lacking step] : Unlimited lacking (f <$> step) :=
  inferInstanceAs (Unlimited lacking (step >>= fun value => pure (f value)))

instance {c : Prop} [Decidable c] {other : Parse α} [Unlimited lacking step]
    [Unlimited lacking other] : Unlimited lacking (if c then step else other) := by
  split <;> infer_instance

instance (delimiter : Char) (construct : String) (opening : Span) [h : Unlimited lacking step] :
    Unlimited lacking (inside delimiter construct opening step) where
  unlimited {setup s} ht hs := by
    have h := h.unlimited ht hs
    unfold inside mapError
    split
    · rename_i error s' ho
      rw [ho] at h
      exact fun hm => h ((error.classify_inside _ _ _).symm.trans hm)
    · exact h

/-- The level that a step enters is one that it lacks. -/
instance [h : Unlimited 1 step] : Unlimited 0 (nested step) where
  unlimited {setup s} ht hs := by
    have h := h.unlimited ht hs.deeper
    rw [nested_apply, if_pos hs.lt]
    generalize step setup s.deeper = outcome at h
    cases outcome with
    | done => exact h
    | stopped why => cases why <;> exact h

theorem unlimited_iterate {turn : α → Parse (Turn α β)} [∀ a, Keeps (turn a)]
    (h : ∀ a, Unlimited lacking (turn a)) (turns : Nat) (a : α) :
    Unlimited lacking (iterate turn turns a) := by
  induction turns generalizing a with
  | zero => exact .of_shallow (stop .exhausted)
  | succ turns ih =>
    refine unlimited_bind (turn a) fun result => ?_
    cases result with
    | again a => exact ih a
    | finish b => exact inferInstanceAs (Unlimited lacking (pure b))

theorem collectTurn_unlimited {step : Parse (Option (α × Bool))} [Keeps step]
    [Unlimited lacking step] (items : List α) : Unlimited lacking (collectTurn step items) :=
  unlimited_bind step fun item => by split <;> infer_instance

end

/-! ## Tokens, errors and nodes -/

section
variable {lacking : Nat}

instance (kind : Token.Kind) : Unlimited lacking (isAt kind) :=
  inferInstanceAs (Unlimited lacking (look _))

instance (kind : Token.Kind) : Unlimited lacking (eat kind) := by unfold eat; infer_instance

instance (word : String) : Unlimited lacking (eatWord word) := by unfold eatWord; infer_instance

instance {sign : Parse Bool} {step : Parse α} [Keeps sign] [Keeps step] [Unlimited lacking sign]
    [Unlimited lacking step] : Unlimited lacking (optionally sign step) := by
  unfold optionally; infer_instance

instance (kind : Token.Kind) {error : Parse Error} [MakesError error] :
    Unlimited lacking (expectOr kind error) := by
  unfold expectOr; infer_instance

instance (kind : Token.Kind) : Unlimited lacking (expect kind) := by unfold expect; infer_instance

instance (start : Nat) (shape : Shape) : Unlimited lacking (pushFrom start shape) := by
  unfold pushFrom; infer_instance

instance (id : NodeId) : Unlimited lacking (spanOf id) := by unfold spanOf; infer_instance

/-! ## Names and lists -/

instance : Unlimited lacking name := .of_shallow _

instance : Unlimited lacking path := .of_shallow _

instance {step : Parse (Option (α × Bool))} [Keeps step] [Unlimited lacking step] :
    Unlimited lacking (collect step) := by
  have (items : List α) : Keeps (collectTurn step items) :=
    keeps_bind step fun item => by split <;> infer_instance
  have (n : Nat) : Unlimited lacking (iterate (collectTurn step) (n + 1) []) :=
    unlimited_iterate collectTurn_unlimited (n + 1) []
  exact inferInstanceAs (Unlimited lacking (look State.remaining >>= fun n =>
    iterate (collectTurn step) (n + 1) []))

instance (close : Token.Kind) {element : Parse NodeId} [Keeps element]
    [Unlimited lacking element] : Unlimited lacking (delimited close element) := by
  unfold delimited; infer_instance

instance {item : Parse NodeId} [Keeps item] [Unlimited lacking item] :
    Unlimited lacking (bracedItems item) := by
  unfold bracedItems; infer_instance

/-! ## Rules -/

instance : Unlimited lacking importStatement := by unfold importStatement; infer_instance

instance (left : NodeId) : Unlimited lacking (member left) := by unfold member; infer_instance

instance : Unlimited lacking externalModule := by unfold externalModule; infer_instance

instance : Unlimited lacking external := by unfold external; infer_instance

instance : Unlimited lacking primary := by
  refine unlimited_bind (look State.current) fun token => ?_
  generalize token.kind = kind
  split
  · split <;> infer_instance
  all_goals infer_instance

end

class Spacious (run : Rule → Parse NodeId) : Prop where
  unlimited {rule : Rule} {setup : Setup} {s : State} (ht : setup.table = .standard)
    (hf : Fits s rule) (hs : s.Roomy setup rule.spare) : ¬(run rule setup s).MeetsLimit

section
variable {run : Rule → Parse NodeId} [hr : Spacious run]

instance (rule : Rule) [hf : rule.Free] : Unlimited 0 (run rule) where
  unlimited ht hs := hr.unlimited ht (hf.fits _) (hs.mono (Nat.zero_le _))

instance (rule : Rule) [hf : rule.Late] : Unlimited 1 (run rule) where
  unlimited ht hs := hr.unlimited ht (hf.fits _) (hf.spare.symm ▸ hs)

instance (left : NodeId) (power : Power) : Unlimited 0 (run (.continuation left power)) where
  unlimited ht hs := hr.unlimited ht trivial (hs.mono (Nat.zero_le _))

instance : Unlimited 0 (value run) := inferInstanceAs (Unlimited 0 (run _))

instance : Unlimited 0 (typeExpression run) := inferInstanceAs (Unlimited 0 (run _))

variable [∀ rule, Keeps (run rule)]
set_option synthInstance.maxSize 512

instance : Unlimited 0 (annotatedType run) := by unfold annotatedType; infer_instance

instance : Unlimited 0 (attributeList run) := by unfold attributeList; infer_instance

instance : Unlimited 0 (signatureAttributes run) := by unfold signatureAttributes; infer_instance

instance : Unlimited 0 (statementOrBlock run) := by unfold statementOrBlock; infer_instance

instance : Unlimited 0 (elseBranch run) := by unfold elseBranch; infer_instance

instance (start : Nat) : Unlimited 0 (letVariable run start) := by
  unfold letVariable; infer_instance

instance (construct : String) (opening : Span) :
    Unlimited 0 (bracedStatements run construct opening) := by
  unfold bracedStatements; infer_instance

instance : Unlimited 0 (statementList run) := by unfold statementList; infer_instance

instance : Unlimited 0 (moreAttributes run) := by unfold moreAttributes; infer_instance

instance (note : String) (expected : List Expected) : Unlimited 0 (body run note expected) := by
  refine unlimited_bind (look State.kind) fun kind => ?_
  split <;> infer_instance

instance : Unlimited 0 (casePattern run) := by unfold casePattern; infer_instance

instance : Unlimited 0 (matchCase run) := by unfold matchCase; infer_instance

instance : Unlimited 0 (rangeHead run) where
  unlimited {setup s} ht hs := by
    have h := unlimited 0 (run (.pattern .any false)) ht (hs.kept (.advance s))
    rw [rangeHead_apply]
    split
    · split
      · split <;> exact fun hm => hm
      · exact fun hm => hm
      · rename_i ho
        rw [ho] at h
        exact fun hm => h hm.stopped
    · exact fun hm => hm

instance (start : Nat) : Unlimited 0 (letFunction run start) := by
  unfold letFunction; infer_instance

instance (start : Nat) : Unlimited 0 (letStruct run start) := by unfold letStruct; infer_instance

instance (start : Nat) : Unlimited 0 (letEnum run start) := by unfold letEnum; infer_instance

/-! ### Rules that pass a token before they enter a level -/

section
variable {setup : Setup} {s : State} (ht : setup.table = .standard) (hs : s.Roomy setup 1)
include ht hs

theorem doStatement_unlimited (hk : s.kind = .doWord) : ¬(doStatement run setup s).MeetsLimit :=
  advance_bind_unlimited ht hs (State.hasTokens_of_kind hk (by decide))

theorem returnStatement_unlimited (hk : s.kind = .returnWord) :
    ¬(returnStatement run setup s).MeetsLimit :=
  advance_bind_unlimited ht hs (State.hasTokens_of_kind hk (by decide))

theorem ifStatement_unlimited (hk : s.kind = .ifWord) : ¬(ifStatement run setup s).MeetsLimit :=
  advance_bind_unlimited ht hs (State.hasTokens_of_kind hk (by decide))

theorem matchStatement_unlimited (hk : s.kind = .matchWord) :
    ¬(matchStatement run setup s).MeetsLimit :=
  advance_bind_unlimited ht hs (State.hasTokens_of_kind hk (by decide))

theorem eachStatement_unlimited (hk : s.kind = .eachWord) :
    ¬(eachStatement run setup s).MeetsLimit := by
  refine @advance_bind_unlimited _ _ _ _
    (fun token => unlimited_bind (rangeHead run) fun head => ?_) ht hs
    (State.hasTokens_of_kind hk (by decide))
  split <;> infer_instance

theorem letStatement_unlimited (hk : s.kind = .letWord) :
    ¬(letStatement run setup s).MeetsLimit := by
  refine @advance_bind_unlimited _ _ _ _
    (fun token => unlimited_bind (look State.kind) fun kind => ?_) ht hs
    (State.hasTokens_of_kind hk (by decide))
  split <;> infer_instance

theorem unary_unlimited (hk : s.hasTokens) : ¬(unary run setup s).MeetsLimit :=
  advance_bind_unlimited ht hs hk

theorem binary_unlimited {left : NodeId} {power : Power} (hk : s.hasTokens) :
    ¬(binary run left power setup s).MeetsLimit := by
  refine look_bind_unlimited ?_
  cases BinaryOp.ofKind? s.kind with
  | none =>
    exact unlimited 1 (do refuse (← unexpected []) : Parse NodeId) ht hs
  | some op => exact advance_bind_unlimited ht hs hk

end

variable [Passing run]

instance : Unlimited 1 (yieldStatement run) := by unfold yieldStatement; infer_instance

instance (left : NodeId) : Unlimited 1 (call run left) := by unfold call; infer_instance

instance (left : NodeId) : Unlimited 1 (index run left) := by unfold index; infer_instance

instance : Unlimited 1 (grouping run) := by unfold grouping; infer_instance

instance (construct : String) : Unlimited 1 (tuple run construct) := by unfold tuple; infer_instance

instance : Unlimited 1 (array run) := by unfold array; infer_instance

instance : Unlimited 1 (block run) := by unfold block; infer_instance

instance : Unlimited 1 (signature run) := by unfold signature; infer_instance

instance : Unlimited 1 (restPattern run) := by unfold restPattern; infer_instance

instance (allowDefault : Bool) : Unlimited 1 (namedPattern run allowDefault) := by
  unfold namedPattern; infer_instance

instance (allowDefault : Bool) : Unlimited 1 (identifierPattern run allowDefault) := by
  unfold identifierPattern; infer_instance

instance : Unlimited 1 (tuplePattern run) := by unfold tuplePattern; infer_instance

instance : Unlimited 1 (enumPattern run) := by unfold enumPattern; infer_instance

instance : Unlimited 1 (literalPattern run) := by unfold literalPattern; infer_instance

/-! ### Rules that a token calls for -/

section
omit hr

theorem spare_of_statement {kind : Token.Kind} {form : Form}
    (h : Table.statements kind = some form) : (Rule.form form).spare = 1 := by
  unfold Table.statements at h
  split at h <;> cases h <;> rfl

theorem spare_of_operand {kind : Token.Kind} {form : Form}
    (h : Table.operands kind = some form) : (Rule.form form).spare = 1 := by
  unfold Table.operands at h
  split at h <;> cases h <;> rfl

theorem spare_of_pattern {kind : Token.Kind} {form : PatternForm} {allowDefault : Bool}
    (h : Table.patterns kind = some form) : (Rule.pattern form allowDefault).spare = 1 := by
  unfold Table.patterns at h
  split at h <;> cases h <;> rfl

end

instance : Unlimited 1 (statement run) where
  unlimited {setup s} ht hs := by
    refine given_bind_unlimited (look_bind_unlimited ?_)
    rw [ht]
    cases hf : Table.standard.statement s.kind with
    | some form => exact hr.unlimited ht (fits_statement hf) (spare_of_statement hf ▸ hs)
    | none => exact unlimited 1 (do refuse (← misplaced .statement) : Parse NodeId) ht hs

instance : Unlimited 1 (operand run) where
  unlimited {setup s} ht hs := by
    refine look_bind_unlimited (given_bind_unlimited ?_)
    rw [ht]
    cases hf : Table.standard.operand s.kind with
    | some form => exact hr.unlimited ht (fits_operand hf) (spare_of_operand hf ▸ hs)
    | none =>
      exact unlimited 1 (if (Table.standard.statement s.kind).isSome then run (.form .statement)
        else do refuse (← misplaced .expression)) ht hs

instance (power : Power) (left : NodeId) : Unlimited 1 (suffixTurn run power left) where
  unlimited {setup s} ht hs := by
    refine given_bind_unlimited (look_bind_unlimited ?_)
    rw [ht]
    cases hf : Table.standard.suffix s.kind with
    | none => exact fun hm => hm
    | some entry =>
      obtain ⟨next, suffix⟩ := entry
      dsimp only
      split
      · have hfits : Fits s (.suffix suffix left next) := hf
        exact bind_unlimited (hr.unlimited ht hfits hs) fun _ _ _ hm => hm
      · exact fun hm => hm

instance (left : NodeId) (power : Power) : Unlimited 1 (continuation run left power) := by
  have (n : Nat) : Unlimited 1 (iterate (suffixTurn run power) (n + 1) left) :=
    unlimited_iterate (fun _ => inferInstance) (n + 1) left
  exact inferInstanceAs (Unlimited 1 (look State.remaining >>= fun n =>
    iterate (suffixTurn run power) (n + 1) left))

instance (power : Power) : Unlimited 0 (expression run power) := by
  unfold expression; infer_instance

instance (allowDefault : Bool) : Unlimited 0 (pattern run allowDefault) := by
  have : Unlimited 1 (do
      match (← given Setup.table).pattern (← look State.kind) with
      | some form => run (.pattern form allowDefault)
      | none => refuse (← misplaced .pattern) : Parse NodeId) := by
    refine ⟨fun {setup s} ht hs => ?_⟩
    refine given_bind_unlimited (look_bind_unlimited ?_)
    rw [ht]
    cases hf : Table.standard.pattern s.kind with
    | some form => exact hr.unlimited ht (fits_pattern hf) (spare_of_pattern hf ▸ hs)
    | none => exact unlimited 1 (do refuse (← misplaced .pattern) : Parse NodeId) ht hs
  unfold pattern
  infer_instance

theorem ruleBody_unlimited {rule : Rule} {setup : Setup} {s : State}
    (ht : setup.table = .standard) (hf : Fits s rule) (hs : s.Roomy setup rule.spare) :
    ¬(rule.body run setup s).MeetsLimit := by
  match rule, hf with
  | .form .statement, _ => exact unlimited 1 (statement run) ht hs
  | .form .importStatement, _ => exact unlimited 1 importStatement ht hs
  | .form .doStatement, hf => exact doStatement_unlimited ht hs hf
  | .form .returnStatement, hf => exact returnStatement_unlimited ht hs hf
  | .form .yieldStatement, _ => exact unlimited 1 (yieldStatement run) ht hs
  | .form .ifStatement, hf => exact ifStatement_unlimited ht hs hf
  | .form .eachStatement, hf => exact eachStatement_unlimited ht hs hf
  | .form .matchStatement, hf => exact matchStatement_unlimited ht hs hf
  | .form .letStatement, hf => exact letStatement_unlimited ht hs hf
  | .form .typeExpression, _ => exact unlimited 0 (typeExpression run) ht hs
  | .form .primary, _ => exact unlimited 1 primary ht hs
  | .form .unary, hf => exact unary_unlimited ht hs (State.hasTokens_of_unary hf)
  | .form .grouping, _ => exact unlimited 1 (grouping run) ht hs
  | .form .array, _ => exact unlimited 1 (array run) ht hs
  | .form .block, _ => exact unlimited 1 (block run) ht hs
  | .form .signature, _ => exact unlimited 1 (signature run) ht hs
  | .expression power, _ => exact unlimited 0 (expression run power) ht hs
  | .continuation left power, _ => exact unlimited 1 (continuation run left power) ht hs
  | .suffix .binary _ _, hf => exact binary_unlimited ht hs (State.hasTokens_of_suffix hf)
  | .suffix .call left _, _ => exact unlimited 1 (call run left) ht hs
  | .suffix .index left _, _ => exact unlimited 1 (index run left) ht hs
  | .suffix .member left _, _ => exact unlimited 1 (member left) ht hs
  | .tuple construct, _ => exact unlimited 1 (tuple run construct) ht hs
  | .pattern .any allowDefault, _ => exact unlimited 0 (pattern run allowDefault) ht hs
  | .pattern .rest _, _ => exact unlimited 1 (restPattern run) ht hs
  | .pattern .named allowDefault, _ => exact unlimited 1 (namedPattern run allowDefault) ht hs
  | .pattern .identifier allowDefault, _ =>
    exact unlimited 1 (identifierPattern run allowDefault) ht hs
  | .pattern .tuple _, _ => exact unlimited 1 (tuplePattern run) ht hs
  | .pattern .enum _, _ => exact unlimited 1 (enumPattern run) ht hs
  | .pattern .literal _, _ => exact unlimited 1 (literalPattern run) ht hs

end

instance spacious_runWith (fuel : Nat) : Spacious (Rule.runWith fuel) := by
  induction fuel with
  | zero => exact ⟨fun _ _ _ hm => hm⟩
  | succ fuel ih => exact ⟨fun ht hf hs => ruleBody_unlimited ht hf hs⟩

end Parse
end Smaug
