import Mathlib
import Smaug.Proofs.Parse.Cut.Basic
import Smaug.Proofs.Parse.Resumed
import Smaug.Proofs.Parse.Turns

/-! # What rules want

A rule that refuses the first token it sees names the items it wants there.  At a token that is such
an item it would have gone on and passed the token.  For most rules the first token decides that
alone; expressions and patterns first see whether they may nest any deeper.
-/

namespace Smaug

def Expected.Met : Expected → Token → Prop
  | token kind, found => found.kind = kind
  | word text, found => found.isWord text
  | expression, found | pattern, found | identifier, found => found.kind = .identifier
  | statement, found => found.kind = .doWord
  | yieldAttribute, found => found.kind = .yieldWord

theorem Expected.Met.of_singleton {item wanted : Expected} {token : Token} (h : item.Met token)
    (hi : item ∈ [wanted]) : wanted.Met token := by rwa [List.mem_singleton.1 hi] at h

theorem Expected.Met.kind_of_pair {item : Expected} {token : Token} (h : item.Met token)
    {kind kind' : Token.Kind} (hi : item ∈ [.token kind, .token kind']) :
    token.kind = kind ∨ token.kind = kind' := by
  rcases List.mem_pair.1 hi with rfl | rfl
  · exact .inl h
  · exact .inr h

theorem Expected.exists_met : ∀ item : Expected, ∃ put, item.Met put
  | token kind => ⟨⟨kind, "", default⟩, rfl⟩
  | word text => ⟨⟨.identifier, text, default⟩, by simp [Met, Token.isWord]⟩
  | expression | pattern | identifier => ⟨⟨.identifier, "a", default⟩, rfl⟩
  | statement => ⟨⟨.doWord, "do", default⟩, rfl⟩
  | yieldAttribute => ⟨⟨.yieldWord, "yield", default⟩, rfl⟩

/-- What a rule wants where it is called, if the token there does not suit it. -/
def Rule.wants : Rule → List Expected
  | .form .statement => [.statement]
  | .form .yieldStatement => [.token .yieldWord]
  | .form .typeExpression | .form .primary | .expression _ => [.expression]
  | .form .grouping | .form .signature | .tuple _ | .pattern .tuple _ => [.token .openParen]
  | .form .array => [.token .openBracket]
  | .form .block => [.token .openCurly]
  | .pattern .any _ => [.pattern]
  | .pattern .rest _ => [.token .ellipsis]
  | .pattern .named _ | .pattern .identifier _ | .pattern .enum _ => [.identifier]
  | _ => []

namespace Parse

open Grammar

/-- A rule stands at a token that it passes however it ends. -/
def Starts (s : State) : Rule → Prop
  | .form .statement => (Table.statements s.kind).isSome
  | .form .yieldStatement => s.kind = .yieldWord
  | .form .primary => s.current.isName ∨ s.kind = .string
  | .form .grouping | .form .signature | .tuple _ | .pattern .tuple _ => s.kind = .openParen
  | .form .array => s.kind = .openBracket
  | .form .block => s.kind = .openCurly
  | .pattern .rest _ => s.kind = .ellipsis
  | .pattern .named _ | .pattern .identifier _ | .pattern .enum _ => s.current.isName
  | .form .typeExpression | .expression _ | .continuation .. | .pattern .any _
  | .pattern .literal _ => False
  | rule => Fits s rule

namespace Outcome

def Passed (n : Nat) : Outcome α → Prop
  | .done _ s | .stopped (.error _) s => s.remaining < n
  | .stopped .. => True

/-- The end is an error that expects an item where `n` tokens are left. -/
def Wants (n : Nat) (item : Expected) : Outcome α → Prop
  | .stopped (.error error) s => s.remaining = n ∧ item ∈ error.expected
  | _ => False

theorem Passed.not_wants {n : Nat} {outcome : Outcome α} (h : outcome.Passed n) {item : Expected} :
    ¬outcome.Wants n item := by
  match outcome, h with
  | .stopped (.error _) _, h => exact fun hw => absurd hw.1 (Nat.ne_of_lt h)
  | .done .., _ | .stopped (.missingNode _) _, _ | .stopped .exhausted _, _ => exact id

theorem Passed.stopped {n : Nat} {why : Stop} {s : State}
    (h : (.stopped why s : Outcome α).Passed n) : (.stopped why s : Outcome β).Passed n := by
  cases why <;> exact h

theorem Keeps.passed {setup : Setup} {s : State} {outcome : Outcome α} (h : outcome.Keeps setup s)
    {n : Nat} (hn : s.remaining < n) : outcome.Passed n := by
  match outcome, h with
  | .done _ s', h | .stopped (.error _) s', h =>
    exact Nat.lt_of_le_of_lt h.toGrown.remaining_le hn
  | .stopped (.missingNode _) _, _ | .stopped .exhausted _, _ => trivial

end Outcome

/-! ## Steps that pass their first token -/

section
variable {setup : Setup} {s : State} {n : Nat} {step : Parse α}

theorem passed_bind {next : α → Parse β} [∀ a, Keeps (next a)] (h : (step setup s).Passed n) :
    ((step >>= next) setup s).Passed n := by
  change (Parse.bind step next setup s).Passed n
  unfold Parse.bind
  cases ho : step setup s with
  | done a s' =>
    rw [ho] at h
    exact (keeps (next a) setup s').passed h
  | stopped why s' =>
    rw [ho] at h
    exact h.stopped

theorem passed_look {f : State → α} {next : α → Parse β} (h : (next (f s) setup s).Passed n) :
    ((look f >>= next) setup s).Passed n := h

theorem advance_passed (he : s.Ended) (hk : s.hasTokens) : (advance setup s).Passed s.remaining :=
  he.remaining_advance hk

theorem expect_passed {kind : Token.Kind} [hi : kind.Inner] (he : s.Ended) (hk : s.kind = kind) :
    (expect kind setup s).Passed s.remaining := by
  rw [show expect kind setup s = _ from expect_done.2 ⟨hk, rfl, rfl⟩]
  exact he.remaining_advance (State.hasTokens_of_kind hk hi.ne)

theorem name_passed (he : s.Ended) (hn : s.current.isName) :
    (name setup s).Passed s.remaining := by
  rw [show name setup s = _ from name_done.2 ⟨hn, rfl, rfl⟩]
  exact he.remaining_advance (State.hasTokens_of_isName hn)

instance keeps_collectTurn {step : Parse (Option (α × Bool))} [Keeps step] (items : List α) :
    Keeps (collectTurn step items) :=
  keeps_bind step fun item => by
    split <;> infer_instance

theorem collect_passed {step : Parse (Option (α × Bool))} [Keeps step]
    (h : (step setup s).Passed n) : (collect step setup s).Passed n := by
  change ((iterate (collectTurn step) (s.remaining + 1) []) setup s).Passed n
  rw [iterate]
  refine @passed_bind _ _ _ _ _ _ _ (fun turn => ?_) (@passed_bind _ _ _ _ _ _ _ (fun item => ?_) h)
  · cases turn with
    | again items => exact keeps_iterate s.remaining items
    | finish items => infer_instance
  · rcases item with _ | ⟨_, _ | _⟩ <;> infer_instance

end

/-! ## Steps that take what they want -/

/-- Whatever a step wants at its first token is among `items`, and at a token that is the one it
passes that token. -/
class Takes (step : Parse α) (items : outParam (List Expected)) : Prop where
  takes {setup : Setup} (ht : setup.table = .standard) {s s' : State} (he : s.Ended)
    (he' : s'.Ended) (hd : s'.depth = s.depth) {item : Expected}
    (h : (step setup s).Wants s.remaining item) :
    item ∈ items ∧ (item.Met s'.current → (step setup s').Passed s'.remaining)

theorem takes_single {step : Parse α} {expected : Expected}
    (hw : ∀ {setup : Setup} {s : State} {item : Expected}, setup.table = .standard → s.Ended →
      (step setup s).Wants s.remaining item → item = expected)
    (hp : ∀ {setup : Setup} {s : State}, setup.table = .standard → s.Ended →
      expected.Met s.current → (step setup s).Passed s.remaining) : Takes step [expected] where
  takes ht _ _ he he' _ _ h := by
    obtain rfl := hw ht he h
    exact ⟨List.mem_singleton_self _, hp ht he'⟩

section
variable {setup : Setup} {s : State} {step : Parse α} {items : List Expected} {item : Expected}

theorem wants_bind {next : α → Parse β} [hp : Passes step] [∀ a, Keeps (next a)]
    (ht : setup.table = .standard) (he : s.Ended)
    (h : ((step >>= next) setup s).Wants s.remaining item) :
    (step setup s).Wants s.remaining item := by
  change (Parse.bind step next setup s).Wants s.remaining item at h
  unfold Parse.bind at h
  cases ho : step setup s with
  | done a s' =>
    rw [ho] at h
    exact absurd h ((keeps (next a) setup s').passed (hp.passes ht he ho)).not_wants
  | stopped why s' =>
    rw [ho] at h
    cases why <;> exact h

instance {next : α → Parse β} [Passes step] [∀ a, Keeps (next a)] [h : Takes step items] :
    Takes (step >>= next) items where
  takes ht _ _ he he' hd _ hw :=
    (h.takes ht he he' hd (wants_bind ht he hw)).imp_right fun hp hm => passed_bind (hp hm)

/-- What is looked at before the step makes no difference to what it wants. -/
theorem takes_look {f : State → β} {next : β → α → Parse γ} [Passes step]
    [∀ b a, Keeps (next b a)] [h : Takes step items] :
    Takes (look f >>= fun b => step >>= next b) items where
  takes {setup} ht s s' he he' hd item hw := by
    have hw : ((step >>= next (f s)) setup s).Wants s.remaining item := hw
    refine (h.takes ht he he' hd (wants_bind ht he hw)).imp_right fun hp hm => ?_
    have hp : ((step >>= next (f s')) setup s').Passed s'.remaining := passed_bind (hp hm)
    exact hp

theorem passed_nested {n : Nat} (hd : s.depth < setup.maxDepth)
    (h : (step setup s.deeper).Passed n) : (nested step setup s).Passed n := by
  rw [nested_apply, if_pos hd]
  match step setup s.deeper, h with
  | .done _ s', h | .stopped (.error _) s', h => exact h
  | .stopped (.missingNode _) _, _ | .stopped .exhausted _, _ => trivial

theorem wants_nested {n : Nat} (h : (nested step setup s).Wants n item) :
    s.depth < setup.maxDepth ∧ (step setup s.deeper).Wants n item := by
  rw [nested_apply] at h
  split at h
  · rename_i hd
    refine ⟨hd, ?_⟩
    match step setup s.deeper, h with
    | .stopped (.error _) s', h => exact h
  · exact absurd h.2 List.not_mem_nil

instance [h : Takes step items] : Takes (nested step) items where
  takes {_} ht s s' he he' hd _ hw := by
    obtain ⟨hroom, hw⟩ := wants_nested hw
    have hended : s.deeper.Ended := he
    have hended' : s'.deeper.Ended := he'
    exact (h.takes ht hended hended' (congrArg (· + 1) hd) hw).imp_right
      fun hp hm => passed_nested (hd ▸ hroom) (hp hm)

end

/-! ## Errors -/

class Tells (error : Parse Error) (items : outParam (List Expected)) : Prop where
  tells (setup : Setup) (token : Token) :
    ∃ e : Error, e.expected = items ∧ ∀ s : State, s.current = token → error setup s = .done e s

instance (items : List Expected) (note : Option String) : Tells (unexpected items note) items where
  tells setup token := by
    refine ⟨⟨if token.kind = .eof then .unexpectedEnd else .unexpectedToken token.value note,
      token.span, items, some setup.file⟩, rfl, ?_⟩
    rintro s rfl
    rfl

instance (cause : Cause) (span : Span) (items : List Expected) :
    Tells (errorAt cause span items) items where
  tells setup _ := ⟨⟨cause, span, items, some setup.file⟩, rfl, fun _ _ => rfl⟩

instance (expected : Expected) : Tells (misplaced expected) [expected] where
  tells setup token := by
    cases hr : token.kind.isReserved with
    | true =>
      refine ⟨⟨.reservedWord token.value, token.span, [expected], some setup.file⟩, rfl, ?_⟩
      rintro s rfl
      simp [misplaced, Bind.bind, Parse.bind, look, hr, errorAt, given]
    | false =>
      obtain ⟨e, he, hs⟩ := (inferInstance : Tells (unexpected [expected]) _).tells setup token
      refine ⟨e, he, ?_⟩
      rintro s rfl
      simp only [misplaced, Bind.bind, Parse.bind, look, hr, Bool.false_eq_true, if_false]
      exact hs s rfl

section
variable {setup : Setup} {s : State} {error : Parse Error} {items : List Expected}
  {item : Expected} {n : Nat}

theorem refuses (error : Parse Error) [h : Tells error items] (setup : Setup) (s : State) :
    ∃ e : Error, e.expected = items ∧
      (do refuse (← error) : Parse α) setup s = .stopped (.error e) s := by
  obtain ⟨e, he, hs⟩ := h.tells setup s.current
  refine ⟨e, he, ?_⟩
  change Parse.bind error _ setup s = _
  rw [Parse.bind, hs s rfl]
  rfl

theorem mem_of_refuse_wants [h : Tells error items]
    (hw : ((do refuse (← error) : Parse α) setup s).Wants n item) : item ∈ items := by
  obtain ⟨e, rfl, hs⟩ := refuses (α := α) error setup s
  rw [hs] at hw
  exact hw.2

theorem expectOr_apply (kind : Token.Kind) (error : Parse Error) :
    expectOr kind error setup s =
      if s.kind = kind then .done s.current s.advance
      else (do refuse (← error) : Parse Token) setup s := by
  change (if s.kind == kind then advance else (do refuse (← error))) setup s = _
  by_cases hk : s.kind = kind <;> simp [hk, advance]

instance (kind : Token.Kind) [kind.Inner] : Takes (expect kind) [.token kind] := by
  refine takes_single (fun {setup s item} _ _ hw => ?_) fun _ he hm => expect_passed he hm
  rw [expect, expectOr_apply] at hw
  split at hw
  · exact hw.elim
  · exact List.mem_singleton.1 (mem_of_refuse_wants hw)

theorem isName_of_met {token : Token} (h : Expected.identifier.Met token) : token.isName := by
  have hk : token.kind = .identifier := h
  simp [Token.isName, hk]

instance : Takes name [.identifier] := by
  refine takes_single (fun {setup s item} _ he hw => ?_) fun _ he hm =>
    name_passed he (isName_of_met hm)
  by_cases hn : s.current.isName
  · exact absurd hw (name_passed he hn).not_wants
  · change ((if s.current.isName then _ else do refuse (← misplaced .identifier) : Parse Name)
      setup s).Wants s.remaining item at hw
    rw [if_neg hn] at hw
    exact List.mem_singleton.1 (mem_of_refuse_wants hw)

end

/-! ## Rules at a token that they pass -/

theorem starts_statement {s : State} {form : Form} (h : Table.statements s.kind = some form) :
    Starts s (.form form) := by
  unfold Table.statements at h
  split at h <;> cases h <;> assumption

theorem starts_operand {s : State} {form : Form} (h : Table.operands s.kind = some form) :
    form = .primary ∨ Starts s (.form form) := by
  have h' := h
  unfold Table.operands at h'
  split at h' <;> cases h' <;> first | exact .inl rfl | exact .inr h | exact .inr ‹_›

theorem starts_pattern {s : State} {form : PatternForm} {allowDefault : Bool}
    (h : Table.patterns s.kind = some form) :
    form = .literal ∨ Starts s (.pattern form allowDefault) := by
  unfold Table.patterns at h
  split at h <;> rename_i hk <;> cases h
  · exact .inr hk
  · exact .inr hk
  all_goals first
    | exact .inl rfl
    | exact .inr (by have hk : s.current.kind = _ := hk; simp [Starts, Token.isName, hk])

theorem kind_of_suffix {power : Power} {suffix : Suffix} {kind : Token.Kind}
    (h : Table.suffixes kind = some (power, suffix)) :
    match suffix with
    | .binary => True
    | .call => kind = .openParen
    | .index => kind = .openBracket
    | .member => kind = .dot := by
  cases kind <;> cases h <;> trivial

section
variable {run : Rule → Parse NodeId} [∀ rule, Keeps (run rule)] {setup : Setup} {s : State}

theorem primary_passed (he : s.Ended) (h : s.current.isName ∨ s.kind = .string) :
    (primary setup s).Passed s.remaining := by
  refine passed_look ?_
  rcases h with h | h
  · have hk : s.current.kind = .identifier ∨ s.current.kind = .builtIn := by
      simpa [Token.isName] using h
    rcases hk with hk | hk
    · simp only [hk]
      exact passed_bind (name_passed he h)
    · simp only [hk]
      exact passed_bind (name_passed he h)
  · have hk : s.current.kind = .string := h
    simp only [hk]
    exact passed_bind (advance_passed he (State.hasTokens_of_kind h (by decide)))

theorem binary_passed {left : NodeId} {power : Power} (he : s.Ended)
    (hf : Table.suffixes s.kind = some (power, .binary)) :
    (binary run left power setup s).Passed s.remaining := by
  have hop : (BinaryOp.ofKind? s.kind).isSome := by
    generalize s.kind = kind at hf
    cases kind <;> cases hf <;> rfl
  obtain ⟨op, hop⟩ := Option.isSome_iff_exists.1 hop
  refine passed_look ?_
  simp only [hop]
  exact passed_bind (advance_passed he (State.hasTokens_of_suffix hf))

theorem eachStatement_passed (he : s.Ended) (hk : s.kind = .eachWord) :
    (eachStatement run setup s).Passed s.remaining := by
  refine @passed_bind _ _ _ _ _ _ _ (fun token => keeps_bind (rangeHead run) fun head => ?_)
    (advance_passed he (State.hasTokens_of_kind hk (by decide)))
  split <;> infer_instance

theorem letStatement_passed (he : s.Ended) (hk : s.kind = .letWord) :
    (letStatement run setup s).Passed s.remaining := by
  refine @passed_bind _ _ _ _ _ _ _ (fun token => keeps_bind (look State.kind) fun kind => ?_)
    (advance_passed he (State.hasTokens_of_kind hk (by decide)))
  split <;> infer_instance

end

/-- A literal may be too large, but then it is not wanted to be anything else. -/
theorem primary_not_wants {setup : Setup} {s : State} (he : s.Ended)
    (hf : Table.patterns s.kind = some .literal) {item : Expected} :
    ¬(primary setup s).Wants s.remaining item := by
  have hk : s.kind = .string ∨ s.kind = .integer := by
    generalize s.kind = kind at hf
    cases kind <;> cases hf <;> simp
  rcases hk with hk | hk
  · exact (primary_passed he (.inr hk)).not_wants
  · have hc : s.current.kind = .integer := hk
    intro hw
    simp only [primary, Bind.bind, Parse.bind, look, hc] at hw
    cases hv : Text.integer? s.current.value with
    | some value =>
      rw [hv] at hw
      exact hw
    | none =>
      rw [hv] at hw
      exact absurd hw.2 List.not_mem_nil

/-! ## What the table says of the first token -/

section
variable {run : Rule → Parse NodeId} {setup : Setup} {s : State}

theorem statement_of_form (ht : setup.table = .standard) {form : Form}
    (hf : Table.statements s.kind = some form) :
    statement run setup s = run (.form form) setup s := by
  have hf : Table.standard.statement s.kind = some form := hf
  simp only [statement, Bind.bind, Parse.bind, given, look, ht, hf]

theorem statement_of_none (ht : setup.table = .standard) (hf : Table.statements s.kind = none) :
    statement run setup s = (do refuse (← misplaced .statement) : Parse NodeId) setup s := by
  have hf : Table.standard.statement s.kind = none := hf
  simp only [statement, Bind.bind, Parse.bind, given, look, ht, hf]

theorem operand_of_form (ht : setup.table = .standard) {form : Form}
    (hf : Table.operands s.kind = some form) :
    operand run setup s = run (.form form) setup s := by
  have hf : Table.standard.operand s.kind = some form := hf
  simp only [operand, Bind.bind, Parse.bind, given, look, ht, hf]

theorem operand_of_none (ht : setup.table = .standard) (hf : Table.operands s.kind = none) :
    operand run setup s = (if (Table.statements s.kind).isSome then run (.form .statement)
      else do refuse (← misplaced .expression)) setup s := by
  have hf : Table.standard.operand s.kind = none := hf
  have hs : Table.standard.statement s.kind = Table.statements s.kind := rfl
  simp only [operand, Bind.bind, Parse.bind, given, look, ht, hf, hs]

theorem pattern_of_form (ht : setup.table = .standard) {form : PatternForm}
    (hf : Table.patterns s.kind = some form) (allowDefault : Bool) :
    pattern run allowDefault setup s = nested (run (.pattern form allowDefault)) setup s := by
  have hf : Table.standard.pattern s.deeper.kind = some form := hf
  simp only [pattern, nested_apply, Bind.bind, Parse.bind, given, look, ht, hf]

theorem pattern_of_none (ht : setup.table = .standard) (hf : Table.patterns s.kind = none)
    (allowDefault : Bool) : pattern run allowDefault setup s =
      nested (do refuse (← misplaced .pattern) : Parse NodeId) setup s := by
  have hf : Table.standard.pattern s.deeper.kind = none := hf
  simp only [pattern, nested_apply, Bind.bind, Parse.bind, given, look, ht, hf]

end

/-! ## Rules -/

class Taking (run : Rule → Parse NodeId) : Prop where
  passed (rule : Rule) {setup : Setup} (ht : setup.table = .standard) {s : State} (he : s.Ended)
    (h : Starts s rule) : (run rule setup s).Passed s.remaining
  literal {setup : Setup} {s : State} (he : s.Ended)
    (hf : Table.patterns s.kind = some .literal) {item : Expected} :
    ¬(run (.form .primary) setup s).Wants s.remaining item
  /-- A pattern with arguments passes the name and the parenthesis. -/
  enum {setup : Setup} (ht : setup.table = .standard) {s : State} (he : s.Ended)
    (hn : s.current.isName) (hp : s.peek 1 = .openParen) {allowDefault : Bool} :
    (run (.pattern .enum allowDefault) setup s).Passed s.advance.remaining
  takes (rule : Rule) {setup : Setup} (ht : setup.table = .standard) {s s' : State}
    (he : s.Ended) (he' : s'.Ended) (hd : s'.depth = s.depth) (hf : Fits s rule)
    (hc : rule.isContinuation = false) {item : Expected}
    (h : (run rule setup s).Wants s.remaining item) :
    item ∈ rule.wants ∧ (item.Met s'.current → (run rule setup s').Passed s'.remaining)

section
variable {run : Rule → Parse NodeId} [Taking run] {setup : Setup} {s : State}
set_option synthInstance.maxSize 512

theorem statement_passed (ht : setup.table = .standard) (he : s.Ended)
    (h : (Table.statements s.kind).isSome) : (statement run setup s).Passed s.remaining := by
  obtain ⟨form, hf⟩ := Option.isSome_iff_exists.1 h
  rw [statement_of_form ht hf]
  exact Taking.passed _ ht he (starts_statement hf)

theorem namedPattern_passed (ht : setup.table = .standard) (he : s.Ended) {allowDefault : Bool}
    (hn : s.current.isName) : (namedPattern run allowDefault setup s).Passed s.remaining := by
  refine passed_look ?_
  split
  · exact Taking.passed (.pattern .enum allowDefault) ht he hn
  · exact Taking.passed (.pattern .identifier allowDefault) ht he hn

/-- The next token is the current one once this is passed. -/
theorem State.Ended.kind_advance (he : s.Ended) (hk : s.hasTokens) : s.advance.kind = s.peek 1 := by
  obtain ⟨hs, -⟩ := he.advance hk
  rw [State.peek, show s.current :: s.ahead = _ from hs]
  rfl

theorem enumPattern_passed [∀ rule, Keeps (run rule)] (ht : setup.table = .standard) (he : s.Ended)
    (hn : s.current.isName) (hp : s.peek 1 = .openParen) :
    (enumPattern run setup s).Passed s.advance.remaining := by
  have hk := State.hasTokens_of_isName hn
  have hd : name setup s = .done s.name s.advance := name_done.2 ⟨hn, rfl, rfl⟩
  rw [enumPattern, bind_of_done hd]
  exact passed_bind (Taking.passed (.pattern .tuple true) ht (he.advance hk).2
    ((he.kind_advance hk).trans hp))

theorem ruleBody_passed [∀ rule, Keeps (run rule)] (ht : setup.table = .standard) (he : s.Ended)
    {rule : Rule} (h : Starts s rule) : (rule.body run setup s).Passed s.remaining := by
  have word {kind : Token.Kind} {next : Token → Parse NodeId} [∀ token, Keeps (next token)]
      (hf : s.kind = kind) (hk : kind ≠ .eof) :
      ((advance >>= next) setup s).Passed s.remaining :=
    passed_bind (advance_passed he (State.hasTokens_of_kind hf hk))
  match rule, h with
  | .form .statement, h => exact statement_passed ht he h
  | .form .importStatement, h => exact word h (by decide)
  | .form .doStatement, h => exact word h (by decide)
  | .form .returnStatement, h => exact word h (by decide)
  | .form .yieldStatement, h => exact passed_bind (expect_passed he h)
  | .form .ifStatement, h => exact word h (by decide)
  | .form .eachStatement, h => exact eachStatement_passed he h
  | .form .matchStatement, h => exact word h (by decide)
  | .form .letStatement, h => exact letStatement_passed he h
  | .form .primary, h => exact primary_passed he h
  | .form .unary, h => exact passed_bind (advance_passed he (State.hasTokens_of_unary h))
  | .form .grouping, h => exact passed_bind (expect_passed he h)
  | .form .array, h => exact passed_bind (expect_passed he h)
  | .form .block, h => exact passed_bind (expect_passed he h)
  | .form .signature, h =>
    exact passed_look (passed_bind (Taking.passed (.pattern .tuple true) ht he h))
  | .suffix .binary _ _, h => exact binary_passed he h
  | .suffix .call _ _, h =>
    exact passed_bind (Taking.passed (.tuple "argument list") ht he (kind_of_suffix h))
  | .suffix .index _ _, h =>
    exact passed_bind (Taking.passed (.form .array) ht he (kind_of_suffix h))
  | .suffix .member _ _, h => exact passed_bind (expect_passed he (kind_of_suffix h))
  | .tuple _, h => exact passed_bind (expect_passed he h)
  | .pattern .rest _, h => exact passed_bind (expect_passed he h)
  | .pattern .named _, h => exact namedPattern_passed ht he h
  | .pattern .identifier _, h => exact passed_bind (name_passed he h)
  | .pattern .tuple _, h => exact passed_bind (expect_passed he h)
  | .pattern .enum _, h => exact passed_bind (name_passed he h)

end

section
variable {run : Rule → Parse NodeId} [∀ rule, Keeps (run rule)] [Passing run] [Taking run]
  {setup : Setup} {s s' : State} {item : Expected}
set_option synthInstance.maxSize 512

instance (rule : Rule) [hr : rule.Free] : Takes (run rule) rule.wants where
  takes ht _ _ he he' hd _ h := Taking.takes _ ht he he' hd (hr.fits _) hr.passes h

instance : Takes (statement run) [.statement] := by
  refine takes_single (fun {setup s item} ht he hw => ?_) fun {setup s} ht he hm => ?_
  · cases hf : Table.statements s.kind with
    | some form => exact absurd hw (statement_passed ht he (by rw [hf]; rfl)).not_wants
    | none =>
      rw [statement_of_none ht hf] at hw
      exact List.mem_singleton.1 (mem_of_refuse_wants hw)
  · have hk : s.kind = .doWord := hm
    exact statement_passed ht he (by rw [hk]; rfl)

instance : Takes primary [.expression] := by
  refine takes_single (fun {setup s item} _ he hw => ?_) fun _ he hm =>
    primary_passed he (.inl (isName_of_met hm))
  have hw' := hw
  simp only [primary, Bind.bind, Parse.bind, look] at hw
  generalize hk : s.current.kind = kind at hw
  split at hw
  · exact absurd hw' (primary_not_wants he (by rw [State.kind, hk]; rfl))
  · exact absurd hw' (primary_passed he (.inr hk)).not_wants
  iterate 2
    exact absurd hw' (primary_passed he (.inl (by simp [Token.isName, hk]))).not_wants
  · exact List.mem_singleton.1 (mem_of_refuse_wants hw)

instance : Takes (operand run) [.expression] := by
  refine takes_single (fun {setup s item} ht he hw => ?_) fun {setup s} ht he hm => ?_
  · cases hf : Table.operands s.kind with
    | some form =>
      rw [operand_of_form ht hf] at hw
      rcases starts_operand hf with rfl | hs
      · exact List.mem_singleton.1
          (Taking.takes (.form .primary) ht he he rfl trivial rfl hw).1
      · exact absurd hw (Taking.passed _ ht he hs).not_wants
    | none =>
      rw [operand_of_none ht hf] at hw
      split at hw
      · rename_i hs
        exact absurd hw (Taking.passed (.form .statement) ht he hs).not_wants
      · exact List.mem_singleton.1 (mem_of_refuse_wants hw)
  · have hk : s.kind = .identifier := hm
    have hf : Table.operands s.kind = some .primary := by
      rw [hk]
      rfl
    rw [operand_of_form ht hf]
    exact Taking.passed (.form .primary) ht he (.inl (isName_of_met hm))

instance (power : Power) : Takes (expression run power) [.expression] := by
  unfold expression; infer_instance

instance (allowDefault : Bool) : Takes (pattern run allowDefault) [.pattern] where
  takes {setup} ht s s' he he' hd item hw := by
    have hended : s.deeper.Ended := he
    have hended' : s'.deeper.Ended := he'
    obtain ⟨rfl, hroom⟩ : item = .pattern ∧ s.depth < setup.maxDepth := by
      cases hf : Table.patterns s.kind with
      | some form =>
        rw [pattern_of_form ht hf] at hw
        obtain ⟨-, hw⟩ := wants_nested hw
        rcases starts_pattern hf with rfl | hs
        · have hi := (Taking.takes (.pattern .literal _) ht hended hended rfl hf rfl hw).1
          exact absurd hi List.not_mem_nil
        · exact absurd hw (Taking.passed _ ht hended hs).not_wants
      | none =>
        rw [pattern_of_none ht hf] at hw
        obtain ⟨hroom, hw⟩ := wants_nested hw
        exact ⟨List.mem_singleton.1 (mem_of_refuse_wants hw), hroom⟩
    refine ⟨List.mem_singleton_self _, fun hm => ?_⟩
    have hk : s'.kind = .identifier := hm
    have hf : Table.patterns s'.kind = some .named := by
      rw [hk]
      rfl
    rw [pattern_of_form ht hf]
    exact passed_nested (hd ▸ hroom)
      (Taking.passed (.pattern .named allowDefault) ht hended' (isName_of_met hm))

instance : Takes (yieldStatement run) [.token .yieldWord] := by
  unfold yieldStatement; infer_instance

instance : Takes (grouping run) [.token .openParen] := by unfold grouping; infer_instance

instance : Takes (array run) [.token .openBracket] := by unfold array; infer_instance

instance : Takes (block run) [.token .openCurly] := by unfold block; infer_instance

instance : Takes (signature run) [.token .openParen] := by unfold signature; exact takes_look

instance (construct : String) : Takes (tuple run construct) [.token .openParen] := by
  unfold tuple; infer_instance

instance : Takes (restPattern run) [.token .ellipsis] := by unfold restPattern; infer_instance

instance (allowDefault : Bool) : Takes (identifierPattern run allowDefault) [.identifier] := by
  unfold identifierPattern; infer_instance

instance : Takes (tuplePattern run) [.token .openParen] := by unfold tuplePattern; infer_instance

instance : Takes (enumPattern run) [.identifier] := by unfold enumPattern; infer_instance

instance (allowDefault : Bool) : Takes (namedPattern run allowDefault) [.identifier] := by
  refine takes_single (fun {setup s item} ht he hw => ?_) fun ht he hm =>
    namedPattern_passed ht he (isName_of_met hm)
  change ((if s.peek 1 = .openParen then run (.pattern .enum allowDefault)
    else run (.pattern .identifier allowDefault)) setup s).Wants s.remaining item at hw
  split at hw
  · exact List.mem_singleton.1
      (Taking.takes (.pattern .enum _) ht he he rfl trivial rfl hw).1
  · exact List.mem_singleton.1
      (Taking.takes (.pattern .identifier _) ht he he rfl trivial rfl hw).1

theorem ruleBody_takes (ht : setup.table = .standard) (he : s.Ended) (he' : s'.Ended)
    (hd : s'.depth = s.depth) {rule : Rule} (hf : Fits s rule) (hc : rule.isContinuation = false)
    (h : (rule.body run setup s).Wants s.remaining item) :
    item ∈ rule.wants ∧ (item.Met s'.current → (rule.body run setup s').Passed s'.remaining) := by
  have of (step : Parse NodeId) {items : List Expected} [hs : Takes step items]
      (h : (step setup s).Wants s.remaining item) := hs.takes ht he he' hd h
  have never (hr : Starts s rule) {P : Prop} : P := absurd h (ruleBody_passed ht he hr).not_wants
  match rule, hf with
  | .form .statement, _ => exact of (statement run) h
  | .form .importStatement, hf => exact never hf
  | .form .doStatement, hf => exact never hf
  | .form .returnStatement, hf => exact never hf
  | .form .yieldStatement, _ => exact of (yieldStatement run) h
  | .form .ifStatement, hf => exact never hf
  | .form .eachStatement, hf => exact never hf
  | .form .matchStatement, hf => exact never hf
  | .form .letStatement, hf => exact never hf
  | .form .typeExpression, _ => exact of (run (.expression .compare)) h
  | .form .primary, _ => exact of primary h
  | .form .unary, hf => exact never hf
  | .form .grouping, _ => exact of (grouping run) h
  | .form .array, _ => exact of (array run) h
  | .form .block, _ => exact of (block run) h
  | .form .signature, _ => exact of (signature run) h
  | .expression _, _ => exact of (expression run _) h
  | .suffix _ _ _, hf => exact never hf
  | .tuple _, _ => exact of (tuple run _) h
  | .pattern .any _, _ => exact of (pattern run _) h
  | .pattern .rest _, _ => exact of (restPattern run) h
  | .pattern .named _, _ => exact of (namedPattern run _) h
  | .pattern .identifier _, _ => exact of (identifierPattern run _) h
  | .pattern .tuple _, _ => exact of (tuplePattern run) h
  | .pattern .enum _, _ => exact of (enumPattern run) h
  | .pattern .literal _, hf => exact absurd (wants_bind ht he h) (Taking.literal he hf)

end

/-! ## Parts of rules -/

section
variable {run : Rule → Parse NodeId} [∀ rule, Keeps (run rule)] [Taking run] {setup : Setup}
  {s : State} {note : String} {expected : List Expected}

theorem body_passed (ht : setup.table = .standard) (he : s.Ended)
    (hk : s.kind = .assignment ∨ s.kind = .openCurly) :
    (body run note expected setup s).Passed s.remaining := by
  refine passed_look ?_
  rcases hk with hk | hk
  · simp only [hk]
    exact passed_bind (advance_passed he (State.hasTokens_of_kind hk (by decide)))
  · simp only [hk]
    exact passed_bind (Taking.passed (.form .block) ht he hk)

theorem body_wants (ht : setup.table = .standard) (he : s.Ended) {item : Expected}
    (hw : (body run note expected setup s).Wants s.remaining item) : item ∈ expected := by
  have hw' := hw
  simp only [body, Bind.bind, Parse.bind, look] at hw
  generalize hk : s.kind = kind at hw
  split at hw
  · exact absurd hw' (body_passed ht he (.inl hk)).not_wants
  · exact absurd hw' (body_passed ht he (.inr hk)).not_wants
  · exact mem_of_refuse_wants hw

theorem takes_body (hx : ∀ item ∈ expected, ∀ token, item.Met token →
      token.kind = .assignment ∨ token.kind = .openCurly) :
    Takes (body run note expected) expected where
  takes ht _ _ he he' _ _ hw :=
    ⟨body_wants ht he hw, fun hm => body_passed ht he' (hx _ (body_wants ht he hw) _ hm)⟩

omit [∀ rule, Keeps (run rule)] [Taking run] in
theorem suffixTurn_of_tighter (ht : setup.table = .standard) {power next : Power} {suffix : Suffix}
    (left : NodeId) (hf : Table.suffixes s.kind = some (next, suffix)) (hn : next.tighter power) :
    suffixTurn run power left setup s =
      (do return .again (← run (.suffix suffix left next)) : Parse (Turn NodeId NodeId)) setup
        s := by
  have hf : setup.table.suffix s.kind = some (next, suffix) := by
    rw [ht]
    exact hf
  simp only [suffixTurn, Bind.bind, Parse.bind, given, look, hf, hn, if_true]

omit [∀ rule, Keeps (run rule)] in
theorem suffixTurn_passed (ht : setup.table = .standard) (he : s.Ended) {power : Power}
    (left : NodeId) (hs : ¬∀ entry ∈ setup.table.suffix s.kind, ¬entry.1.tighter power) :
    (suffixTurn run power left setup s).Passed s.remaining := by
  obtain ⟨⟨next, suffix⟩, hf, hn⟩ : ∃ entry ∈ setup.table.suffix s.kind, entry.1.tighter power := by
    simpa using hs
  rw [ht] at hf
  rw [suffixTurn_of_tighter ht left hf hn]
  exact passed_bind (Taking.passed (.suffix suffix left next) ht he hf)

omit [∀ rule, Keeps (run rule)] [Taking run] in
theorem casePattern_apply : casePattern run setup s =
    if s.current.isWord "default" then .done (.default s.current.span) s.advance
    else (do return .pattern (← run (.pattern .any false)) : Parse CasePattern) setup s := by
  simp only [casePattern, eatWord, Bind.bind, Parse.bind, look]
  cases s.current.isWord "default" <;> rfl

instance [Passing run] : Takes (casePattern run) [.pattern] where
  takes {setup} ht s s' he he' hd item hw := by
    rw [casePattern_apply] at hw
    split at hw
    · exact hw.elim
    · obtain ⟨hi, hp⟩ := Takes.takes ht he he' hd hw
      refine ⟨hi, fun hm => ?_⟩
      rw [casePattern_apply]
      split
      · rename_i hword
        exact he'.remaining_advance (State.hasTokens_of_isWord hword)
      · exact hp hm

omit [Taking run] in
theorem attributeList_passed (he : s.Ended) (hk : s.kind = .yieldWord) :
    (attributeList run setup s).Passed s.remaining := by
  have hy : (s.kind == .yieldWord) = true := beq_iff_eq.2 hk
  have hitem : (nextAttribute run setup s).Passed s.remaining := by
    refine passed_look ?_
    rw [if_pos hy]
    exact passed_bind (advance_passed he (State.hasTokens_of_kind hk (by decide)))
  rw [attributeList_eq]
  refine passed_look ?_
  rw [if_pos hy]
  exact collect_passed hitem

omit [Taking run] in
instance : Takes (attributeList run) [.yieldAttribute] := by
  refine takes_single (fun {setup s item} _ he hw => ?_) fun _ he hm => attributeList_passed he hm
  by_cases hk : s.kind = .yieldWord
  · exact absurd hw (attributeList_passed he hk).not_wants
  · have hk : (s.kind == .yieldWord) = false := beq_eq_false_iff_ne.2 hk
    simp only [attributeList, Bind.bind, Parse.bind, isAt, look, hk] at hw
    have hw : ((errorAt .emptyAttributeList s.current.span [.yieldAttribute] >>= refuse :
        Parse (List NodeId)) setup s).Wants s.remaining item := hw
    exact List.mem_singleton.1 (mem_of_refuse_wants hw)

omit [Taking run] in
/-- A statement list opens with a colon or a brace. -/
theorem statementList_passed (he : s.Ended) (hk : s.kind = .colon ∨ s.kind = .openCurly) :
    (statementList run setup s).Passed s.remaining := by
  refine passed_look ?_
  rcases hk with hk | hk
  · have hd : eat .colon setup s = .done true s.advance :=
      eat_done.2 ⟨(beq_iff_eq.2 hk).symm, (if_pos hk).symm⟩
    rw [bind_of_done hd]
    exact (keeps _ setup _).passed (he.remaining_advance (State.hasTokens_of_kind hk (by decide)))
  · have hd : eat .colon setup s = .done false s :=
      eat_done.2 ⟨by rw [hk]; rfl, (if_neg (by rw [hk]; decide)).symm⟩
    rw [bind_of_done hd]
    exact passed_bind (expect_passed he hk)

instance : Takes (statementList run) [.token .openCurly] := by
  refine takes_single (fun {setup s item} ht he hw => ?_) fun _ he hm =>
    statementList_passed he (.inr hm)
  by_cases hk : s.kind = .colon
  · exact absurd hw (statementList_passed he (.inl hk)).not_wants
  · have hd : eat .colon setup s = .done false s :=
      eat_done.2 ⟨(beq_eq_false_iff_ne.2 hk).symm, (if_neg hk).symm⟩
    change ((eat .colon >>= _) setup s).Wants s.remaining item at hw
    rw [bind_of_done hd] at hw
    exact List.mem_singleton.1 (Takes.takes ht he he rfl (wants_bind ht he hw)).1

end

instance taking_runWith (fuel : Nat) : Taking (Rule.runWith fuel) := by
  induction fuel with
  | zero =>
    exact ⟨fun _ _ _ _ _ _ => trivial, fun _ _ _ => id, fun _ _ _ _ _ _ => trivial,
      fun _ _ _ _ _ _ _ _ _ _ _ h => h.elim⟩
  | succ fuel ih =>
    exact {
      passed := fun _ _ ht _ he h => ruleBody_passed ht he h
      literal := fun he hf => primary_not_wants he hf
      enum := fun ht _ he hn hp => enumPattern_passed ht he hn hp
      takes := fun _ _ ht _ _ he he' hd hf hc _ h => ruleBody_takes ht he he' hd hf hc h }

end Parse
end Smaug
