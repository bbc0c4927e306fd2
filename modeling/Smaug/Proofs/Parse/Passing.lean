import Mathlib
import Smaug.Proofs.Parse.Lossless

/-! # Rules pass tokens

A rule that yields a node has passed a token, but for the suffixes of an operand, of which there may
be none.  So a loop over a rule ends within the tokens left.
-/

namespace Smaug

/-- Whether a rule takes an operand further, and so may pass nothing. -/
def Rule.isContinuation : Rule → Bool
  | .continuation .. => true
  | _ => false

namespace Rule

/-- A rule that can be called at every token, and passes one. -/
class Free (rule : Rule) : Prop where
  fits (s : Parse.State) : Grammar.Fits s rule
  passes : rule.isContinuation = false
  left : rule.left = []

instance : Free (.form .statement) := ⟨fun _ => trivial, rfl, rfl⟩
instance : Free (.form .typeExpression) := ⟨fun _ => trivial, rfl, rfl⟩
instance : Free (.form .primary) := ⟨fun _ => trivial, rfl, rfl⟩
instance : Free (.form .array) := ⟨fun _ => trivial, rfl, rfl⟩
instance : Free (.form .block) := ⟨fun _ => trivial, rfl, rfl⟩
instance : Free (.form .signature) := ⟨fun _ => trivial, rfl, rfl⟩
instance (power : Power) : Free (.expression power) := ⟨fun _ => trivial, rfl, rfl⟩
instance (construct : String) : Free (.tuple construct) := ⟨fun _ => trivial, rfl, rfl⟩
instance (b : Bool) : Free (.pattern .any b) := ⟨fun _ => trivial, rfl, rfl⟩
instance (b : Bool) : Free (.pattern .identifier b) := ⟨fun _ => trivial, rfl, rfl⟩
instance (b : Bool) : Free (.pattern .tuple b) := ⟨fun _ => trivial, rfl, rfl⟩
instance (b : Bool) : Free (.pattern .enum b) := ⟨fun _ => trivial, rfl, rfl⟩

end Rule

namespace Parse

open Grammar

namespace State

theorem length_tokens (s : State) : s.tokens.length = s.remaining := rfl

theorem remaining_pos (s : State) : 0 < s.remaining := Nat.succ_pos _

theorem Ended.remaining_advance {s : State} (he : s.Ended) (ht : s.hasTokens) :
    s.advance.remaining < s.remaining := by
  rw [← length_tokens, ← length_tokens, (he.advance ht).1, List.length_cons]
  exact Nat.lt_succ_self _

theorem hasTokens_of_kind {s : State} {kind : Token.Kind} (h : s.kind = kind)
    (hk : kind ≠ .eof) : s.hasTokens := by
  simpa [hasTokens, h] using hk

theorem hasTokens_of_unary {s : State} (h : Table.operands s.kind = some .unary) :
    s.hasTokens := by
  rw [hasTokens, bne_iff_ne]
  intro hk
  rw [hk] at h
  cases h

theorem hasTokens_of_suffix {s : State} {power : Power} {suffix : Suffix}
    (h : Table.suffixes s.kind = some (power, suffix)) : s.hasTokens := by
  rw [hasTokens, bne_iff_ne]
  intro hk
  rw [hk] at h
  cases h

theorem hasTokens_of_isName {s : State} (h : s.current.isName) : s.hasTokens := by
  rw [hasTokens, kind, bne_iff_ne]
  intro hk
  simp [Token.isName, hk] at h

theorem hasTokens_of_isWord {s : State} {word : String} (h : s.current.isWord word) :
    s.hasTokens := by
  rw [hasTokens, kind, bne_iff_ne]
  intro hk
  simp [Token.isWord, hk] at h

end State

theorem Grown.remaining_le {s s' : State} (h : Grown s s') : s'.remaining ≤ s.remaining := by
  obtain ⟨passed, ht, -⟩ := h.tokens
  rw [← State.length_tokens, ← State.length_tokens, ht, List.length_append]
  exact Nat.le_add_left _ _

theorem kept_of_done {step : Parse α} [Keeps step] {setup : Setup} {s s' : State} {value : α}
    (h : step setup s = .done value s') : Kept s s' := by
  have hk := keeps step setup s
  rw [h] at hk
  exact hk

/-- A step that passes a token whenever it yields a value. -/
class Passes (step : Parse α) : Prop where
  passes {setup : Setup} {s s' : State} {value : α} (ht : setup.table = .standard)
    (he : s.Ended) (h : step setup s = .done value s') : s'.remaining < s.remaining

theorem passes (step : Parse α) [h : Passes step] {setup : Setup} {s s' : State} {value : α}
    (ht : setup.table = .standard) (he : s.Ended) (hd : step setup s = .done value s') :
    s'.remaining < s.remaining := h.passes ht he hd

/-! ## Steps -/

section
variable {step : Parse α}

theorem advance_bind_passes {next : Token → Parse β} [∀ token, Keeps (next token)] {setup : Setup}
    {s s' : State} {value : β} (he : s.Ended) (ht : s.hasTokens)
    (h : (advance >>= next) setup s = .done value s') : s'.remaining < s.remaining := by
  obtain ⟨_, _, ha, h⟩ := bind_done.1 h
  obtain ⟨rfl, rfl⟩ := advance_done.1 ha
  have hk := (kept_of_done h).remaining_le
  have := he.remaining_advance ht
  omega

theorem passes_expectOr {kind : Token.Kind} (hk : kind ≠ .eof) (error : Parse Error) :
    Passes (expectOr kind error) where
  passes _ he h := by
    obtain ⟨hs, -, rfl⟩ := expectOr_done.1 h
    exact he.remaining_advance (State.hasTokens_of_kind hs hk)

theorem passes_expect {kind : Token.Kind} (hk : kind ≠ .eof) : Passes (expect kind) :=
  passes_expectOr hk _

instance : Passes (expect .openParen) := passes_expect (by decide)
instance : Passes (expect .openBracket) := passes_expect (by decide)
instance : Passes (expect .openCurly) := passes_expect (by decide)
instance : Passes (expect .yieldWord) := passes_expect (by decide)
instance : Passes (expect .ellipsis) := passes_expect (by decide)
instance : Passes (expect .dot) := passes_expect (by decide)

instance {next : α → Parse β} [Keeps step] [hp : ∀ value, Passes (next value)] :
    Passes (step >>= next) where
  passes ht he h := by
    obtain ⟨a, s₁, hs, h⟩ := bind_done.1 h
    have hk := (kept_of_done hs).toGrown
    exact Nat.lt_of_lt_of_le ((hp a).passes ht (he.grow hk) h) hk.remaining_le

instance (priority := high) {next : α → Parse β} [hp : Passes step]
    [∀ value, Keeps (next value)] : Passes (step >>= next) where
  passes ht he h := by
    obtain ⟨a, s₁, hs, h⟩ := bind_done.1 h
    exact Nat.lt_of_le_of_lt (kept_of_done h).remaining_le (hp.passes ht he hs)

instance {c : Prop} [Decidable c] {other : Parse α} [Passes step] [Passes other] :
    Passes (if c then step else other) := by
  split <;> infer_instance

instance (error : Parse Error) : Passes (error >>= fun e => refuse e : Parse α) where
  passes _ _ h := by simp [bind_done, refuse_done] at h

instance (delimiter : Char) (construct : String) (opening : Span) [hp : Passes step] :
    Passes (inside delimiter construct opening step) where
  passes ht he h := hp.passes ht he (inside_done.1 h)

instance : Passes name where
  passes _ he h := by
    obtain ⟨hn, -, rfl⟩ := name_done.1 h
    exact he.remaining_advance (State.hasTokens_of_isName hn)

theorem passes_bind {step : Parse α} [Keeps step] {next : α → Parse β}
    (h : ∀ a, Passes (next a)) : Passes (step >>= next) := inferInstance

instance (word : String) {step other : Parse α} [Keeps step] [hp : Passes other] :
    Passes (eatWord word >>= fun b => if b then step else other) where
  passes {setup s s' value} ht he h := by
    obtain ⟨b, s₁, hb, h⟩ := bind_done.1 h
    obtain ⟨rfl, rfl⟩ := eatWord_done.1 hb
    cases hs : s.current.isWord word with
    | true =>
      have := he.remaining_advance (State.hasTokens_of_isWord hs)
      rw [hs, if_pos rfl, if_pos rfl] at h
      exact Nat.lt_of_le_of_lt (kept_of_done h).remaining_le this
    | false =>
      rw [hs, if_neg Bool.false_ne_true, if_neg Bool.false_ne_true] at h
      exact hp.passes ht he h

end

/-! ## Loops -/

/-- A loop passes the tokens that its first turn does. -/
theorem loop_first {turn : α → Parse (Turn α β)} (hk : ∀ a, Keeps (turn a)) {setup : Setup}
    {s s' : State} {a : α} {value : β} (h : loop turn a setup s = .done value s') :
    ∃ result s₁, turn a setup s = .done result s₁ ∧ s'.remaining ≤ s₁.remaining := by
  obtain ⟨turns, s, hl, h⟩ := bind_done.1 h
  obtain ⟨rfl, rfl⟩ := look_done.1 hl
  obtain ⟨result, s₁, ht, h⟩ := bind_done.1 h
  refine ⟨result, s₁, ht, ?_⟩
  cases result with
  | again a =>
    have : Keeps (iterate turn s.remaining a) := keeps_iterate s.remaining a
    exact (kept_of_done h).remaining_le
  | finish b =>
    obtain ⟨-, rfl⟩ := pure_done.1 h
    exact Nat.le_refl _

theorem collect_first {step : Parse (Option (α × Bool))} [Keeps step] {setup : Setup}
    {s s' : State} {items : List α} (h : collect step setup s = .done items s') :
    ∃ item s₁, step setup s = .done item s₁ ∧ s'.remaining ≤ s₁.remaining := by
  obtain ⟨turn, s₁, ht, hle⟩ := loop_first (fun items => keeps_bind step fun item => by
    split <;> infer_instance) h
  obtain ⟨item, s₂, hs, ht⟩ := bind_done.1 ht
  refine ⟨item, s₂, hs, ?_⟩
  rcases item with _ | ⟨_, _ | _⟩
  all_goals
    obtain ⟨-, rfl⟩ := pure_done.1 ht
    exact hle

theorem delimited_first {close : Token.Kind} {element : Parse NodeId} [Keeps element]
    {setup : Setup} {s s' : State} {ids : List NodeId} (hk : s.kind ≠ close)
    (h : delimited close element setup s = .done ids s') :
    ∃ id s₁, element setup s = .done id s₁ ∧ s'.remaining ≤ s₁.remaining := by
  obtain ⟨ids, s₂, hc, h⟩ := bind_done.1 h
  have hle := (kept_of_done h).remaining_le
  obtain ⟨item, s₃, hs, hle'⟩ := collect_first hc
  obtain ⟨b, s, hb, hs⟩ := bind_done.1 hs
  obtain ⟨rfl, rfl⟩ := isAt_done.1 hb
  rw [if_neg (by simpa using hk)] at hs
  obtain ⟨id, s₁, hd, hs⟩ := bind_done.1 hs
  have := (kept_of_done hs).remaining_le
  exact ⟨id, s₁, hd, by omega⟩

/-! ## Rules -/

section
variable {run : Rule → Parse NodeId} [∀ rule, Keeps (run rule)] {setup : Setup} {s s' : State}
  {id : NodeId}
set_option synthInstance.maxSize 512

theorem eachStatement_passes (he : s.Ended)
    (hk : s.kind = .eachWord) (h : eachStatement run setup s = .done id s') :
    s'.remaining < s.remaining := by
  refine @advance_bind_passes _ _ (fun token => keeps_bind (rangeHead run) fun head => ?_) _ _ _ _
    he (State.hasTokens_of_kind hk (by decide)) h
  split <;> infer_instance

theorem letStatement_passes (he : s.Ended)
    (hk : s.kind = .letWord) (h : letStatement run setup s = .done id s') :
    s'.remaining < s.remaining := by
  refine @advance_bind_passes _ _ (fun token => keeps_bind (look State.kind) fun kind => ?_) _ _ _ _
    he (State.hasTokens_of_kind hk (by decide)) h
  split <;> infer_instance

theorem unary_passes (he : s.Ended)
    (hk : Table.operands s.kind = some .unary) (h : unary run setup s = .done id s') :
    s'.remaining < s.remaining := by
  exact advance_bind_passes he (State.hasTokens_of_unary hk) h

theorem binary_passes {left : NodeId} {power : Power} (he : s.Ended)
    (hk : Table.suffixes s.kind = some (power, .binary))
    (h : binary run left power setup s = .done id s') : s'.remaining < s.remaining := by
  simp only [binary, bind_done, look_done] at h
  obtain ⟨_, s, ⟨rfl, rfl⟩, h⟩ := h
  cases ho : BinaryOp.ofKind? s.kind with
  | none => simp [ho, bind_done, refuse_done] at h
  | some op =>
    simp only [ho] at h
    exact advance_bind_passes he (State.hasTokens_of_suffix hk) h

end

class Passing (run : Rule → Parse NodeId) : Prop where
  passes {rule : Rule} {setup : Setup} {s s' : State} {id : NodeId}
    (ht : setup.table = .standard) (hf : Fits s rule) (hc : rule.isContinuation = false)
    (he : s.Ended) (h : run rule setup s = .done id s') : s'.remaining < s.remaining

section
variable {run : Rule → Parse NodeId} [∀ rule, Keeps (run rule)] [Passing run]
set_option synthInstance.maxSize 512

instance (rule : Rule) [hr : rule.Free] : Passes (run rule) where
  passes ht he h := Passing.passes ht (hr.fits _) hr.passes he h

instance : Passes (value run) := inferInstanceAs (Passes (run _))

def PassesRule : Meaning := fun rule s _ s' =>
  s.Ended → rule.isContinuation = false → s'.remaining < s.remaining

omit [∀ rule, Keeps (run rule)] in
theorem passesRule_of_done {setup : Setup} (ht : setup.table = .standard) {rule : Rule}
    {s s' : State} {id : NodeId} (hf : Fits s rule) (h : run rule setup s = .done id s') :
    PassesRule rule s id s' := fun he hc => Passing.passes ht hf hc he h

instance (power : Power) : Passes (expression run power) where
  passes {setup s s' id} ht he h := by
    simp only [expression, nested_done, bind_done] at h
    obtain ⟨-, s₂, ⟨left, s₁, ho, hc⟩, rfl⟩ := h
    have hp : s₁.remaining < s.deeper.remaining := by
      cases operand_done (passesRule_of_done ht) ht ho with
      | form _ hr => exact hr he rfl
      | statement _ _ hr => exact hr he rfl
    exact Nat.lt_of_le_of_lt (kept_of_done hc).remaining_le hp

instance : Passes primary where
  passes {setup s s' id} ht he h := by
    have hp : Production (fun _ _ _ _ => True) setup.maxDepth (.form .primary) s id s' :=
      primary_done h
    cases hp with
    | integer hk | string hk =>
      exact he.remaining_advance (State.hasTokens_of_kind hk (by decide))
    | identifier hn => exact he.remaining_advance (State.hasTokens_of_isName hn)

instance : Passes (yieldStatement run) := by unfold yieldStatement; infer_instance

instance : Passes (grouping run) := by unfold grouping; infer_instance

instance (construct : String) : Passes (tuple run construct) := by unfold tuple; infer_instance

instance : Passes (array run) := by unfold array; infer_instance

instance : Passes (block run) := by unfold block; infer_instance

instance : Passes (signature run) := by unfold signature; infer_instance

instance (left : NodeId) : Passes (call run left) := by unfold call; infer_instance

instance (left : NodeId) : Passes (index run left) := by unfold index; infer_instance

instance (left : NodeId) : Passes (member left) := by unfold member; infer_instance

instance : Passes (restPattern run) := by unfold restPattern; infer_instance

instance (allowDefault : Bool) : Passes (namedPattern run allowDefault) := by
  unfold namedPattern; infer_instance

instance (allowDefault : Bool) : Passes (identifierPattern run allowDefault) := by
  unfold identifierPattern; infer_instance

instance : Passes (tuplePattern run) := by unfold tuplePattern; infer_instance

instance : Passes (enumPattern run) := by unfold enumPattern; infer_instance

instance : Passes (literalPattern run) := by unfold literalPattern; infer_instance

instance : Passes (attributeList run) where
  passes {setup s s' ids} ht he h := by
    simp only [attributeList, bind_done, isAt_done] at h
    obtain ⟨_, s, ⟨rfl, rfl⟩, h⟩ := h
    split at h
    · rename_i hy
      obtain ⟨item, s₁, h, hle⟩ := collect_first h
      obtain ⟨b, s, hb, h⟩ := bind_done.1 h
      obtain ⟨rfl, rfl⟩ := isAt_done.1 hb
      rw [if_pos hy] at h
      have hs : s.hasTokens := State.hasTokens_of_kind (beq_iff_eq.1 hy) (by decide)
      exact Nat.lt_of_le_of_lt hle (advance_bind_passes he hs h)
    · simp [bind_done, refuse_done] at h

instance : Passes (statement run) where
  passes {setup s s' id} ht he h := by
    have hp : Production PassesRule setup.maxDepth (.form .statement) s id s' :=
      statement_done (passesRule_of_done ht) ht h
    cases hp with
    | statement _ hr => exact hr he rfl

instance : Passes (operand run) where
  passes {setup s s' id} ht he h := by
    cases operand_done (passesRule_of_done ht) ht h with
    | form _ hr => exact hr he rfl
    | statement _ _ hr => exact hr he rfl

instance (allowDefault : Bool) : Passes (pattern run allowDefault) where
  passes {setup s s' id} ht he h := by
    cases pattern_done (passesRule_of_done ht) ht h with
    | pattern _ _ hr => exact hr he rfl

instance : Passes (casePattern run) := by unfold casePattern; infer_instance

instance (note : String) (expected : List Expected) : Passes (body run note expected) := by
  refine passes_bind fun kind => ?_
  split <;> infer_instance

instance (left : NodeId) (power : Power) : Passes (binary run left power) := by
  refine passes_bind fun kind => ?_
  split <;> infer_instance

instance (start : Nat) : Passes (letVariable run start) := by unfold letVariable; infer_instance

instance (start : Nat) : Passes (letFunction run start) := by unfold letFunction; infer_instance

theorem ruleBody_passes {rule : Rule} {setup : Setup} {s s' : State} {id : NodeId}
    (ht : setup.table = .standard) (hf : Fits s rule) (hc : rule.isContinuation = false)
    (he : s.Ended) (h : rule.body run setup s = .done id s') : s'.remaining < s.remaining := by
  have word {kind : Token.Kind} {next : Token → Parse NodeId} [∀ token, Keeps (next token)]
      (hf : s.kind = kind) (hk : kind ≠ .eof) (h : (advance >>= next) setup s = .done id s') :
      s'.remaining < s.remaining := advance_bind_passes he (State.hasTokens_of_kind hf hk) h
  have hr {rule : Rule} {s s' : State} {id : NodeId} (hf : Fits s rule)
      (h : run rule setup s = .done id s') : PassesRule rule s id s' := passesRule_of_done ht hf h
  match rule, hf with
  | .form .statement, _ =>
    have hp : Production PassesRule setup.maxDepth (.form .statement) s id s' :=
      statement_done hr ht h
    cases hp with
    | statement _ hr => exact hr he rfl
  | .form .importStatement, hf => exact word hf (by decide) h
  | .form .doStatement, hf => exact word hf (by decide) h
  | .form .returnStatement, hf => exact word hf (by decide) h
  | .form .yieldStatement, _ => exact passes (yieldStatement run) ht he h
  | .form .ifStatement, hf => exact word hf (by decide) h
  | .form .eachStatement, hf => exact eachStatement_passes he hf h
  | .form .matchStatement, hf => exact word hf (by decide) h
  | .form .letStatement, hf => exact letStatement_passes he hf h
  | .form .typeExpression, _ => exact passes (run (.expression .compare)) ht he h
  | .form .primary, _ => exact passes primary ht he h
  | .form .unary, hf => exact unary_passes he hf h
  | .form .grouping, _ => exact passes (grouping run) ht he h
  | .form .array, _ => exact passes (array run) ht he h
  | .form .block, _ => exact passes (block run) ht he h
  | .form .signature, _ => exact passes (signature run) ht he h
  | .expression _, _ => exact passes (expression run _) ht he h
  | .suffix .binary _ _, hf => exact binary_passes he hf h
  | .suffix .call _ _, hf => exact passes (call run _) ht he h
  | .suffix .index _ _, hf => exact passes (index run _) ht he h
  | .suffix .member _ _, hf => exact passes (member _) ht he h
  | .tuple _, _ => exact passes (tuple run _) ht he h
  | .pattern .any _, _ =>
    cases pattern_done hr ht h with
    | pattern _ _ hr => exact hr he rfl
  | .pattern .rest _, _ => exact passes (restPattern run) ht he h
  | .pattern .named _, _ => exact passes (namedPattern run _) ht he h
  | .pattern .identifier _, _ => exact passes (identifierPattern run _) ht he h
  | .pattern .tuple _, _ => exact passes (tuplePattern run) ht he h
  | .pattern .enum _, _ => exact passes (enumPattern run) ht he h
  | .pattern .literal _, hf => exact passes (literalPattern run) ht he h

end

instance passing_runWith (fuel : Nat) : Passing (Rule.runWith fuel) := by
  induction fuel with
  | zero => exact ⟨fun _ _ _ _ h => by cases h⟩
  | succ fuel ih => exact ⟨fun ht hf hc he h => ruleBody_passes ht hf hc he h⟩

instance passing_parse : Passing Rule.parse :=
  ⟨fun ht hf hc he h => (passing_runWith _).passes ht hf hc he h⟩

end Parse
end Smaug
