import Smaug.Parse.Rules
import Smaug.Proofs.Token.Order

/-! # What a step of a parse keeps

A step moves forward through the tokens and adds nodes at the end of the arena; it never touches
what was there before.  A step that ends with a value or an error also leaves every level of
nesting it has entered, and one that breaks off has entered none beyond the limit.  So going back
to a mark undoes a step exactly.
-/

namespace Smaug

theorem Error.classify_inside (error : Error) (delimiter : Char) (construct : String)
    (opening : Span) : (error.inside delimiter construct opening).classify = error.classify := by
  unfold Error.inside
  split
  · rename_i he
    have hc : error.cause = .unexpectedEnd := by simpa [isAtEnd] using he
    simp [classify, Cause.classify, hc]
  · rfl

namespace Parse

namespace State

def tokens (s : State) : List Token := s.current :: s.ahead

def deeper (s : State) : State := { s with depth := s.depth + 1 }

theorem advance_cases (s : State) :
    s.advance = s ∨
      s.current.kind ≠ .eof ∧ s.tokens = s.current :: s.advance.tokens ∧ s.advance.nodes = s.nodes ∧
        s.advance.depth = s.depth ∧ s.advance.lastStop = s.current.span.stop := by
  obtain ⟨current, ahead, nodes, depth, lastStop⟩ := s
  cases ahead with
  | nil => exact .inl rfl
  | cons next ahead =>
    by_cases h : current.kind = .eof
    · left
      simp [advance, hasTokens, kind, h]
    · right
      simp [advance, hasTokens, kind, tokens, h]

@[simp] theorem advance_nodes (s : State) : s.advance.nodes = s.nodes := by
  rcases s.advance_cases with h | ⟨-, -, h, -⟩
  · rw [h]
  · exact h

end State

/-- `s'` is reached from `s` by passing tokens and adding nodes. -/
structure Grown (s s' : State) : Prop where
  tokens : ∃ passed : List Token, s.tokens = passed ++ s'.tokens ∧
    (∀ token ∈ passed, token.kind ≠ .eof) ∧ s'.lastStop = stopAfter s.lastStop passed
  nodes : s.nodes.toList <+: s'.nodes.toList

structure Kept (s s' : State) : Prop extends Grown s s' where
  depth : s'.depth = s.depth

theorem Grown.refl (s : State) : Grown s s where
  tokens := ⟨[], rfl, by simp, rfl⟩
  nodes := List.prefix_refl _

theorem Grown.trans {s s' s'' : State} (h : Grown s s') (h' : Grown s' s'') : Grown s s'' where
  tokens := by
    obtain ⟨ts, hts, heof, hstop⟩ := h.tokens
    obtain ⟨us, hus, heof', hstop'⟩ := h'.tokens
    refine ⟨ts ++ us, by rw [hts, hus, List.append_assoc], ?_, ?_⟩
    · intro token ht
      rcases List.mem_append.1 ht with ht | ht
      · exact heof token ht
      · exact heof' token ht
    · rw [hstop', hstop, stopAfter_append]
  nodes := h.nodes.trans h'.nodes

theorem Kept.refl (s : State) : Kept s s := ⟨.refl s, rfl⟩

theorem Kept.trans {s s' s'' : State} (h : Kept s s') (h' : Kept s' s'') : Kept s s'' :=
  ⟨h.toGrown.trans h'.toGrown, h'.depth.trans h.depth⟩

theorem Grown.size_le {s s' : State} (h : Grown s s') : s.nodes.size ≤ s'.nodes.size := by
  simpa using h.nodes.length_le

/-- A node that is in the arena stays where it is. -/
theorem Grown.getElem? {s s' : State} (h : Grown s s') {id : NodeId} {node : Node}
    (hn : s.nodes[id]? = some node) : s'.nodes[id]? = some node := by
  obtain ⟨added, ha⟩ := h.nodes
  rw [← Array.getElem?_toList] at hn ⊢
  rw [← ha, List.getElem?_append_left (List.getElem?_eq_some_iff.1 hn).1, hn]

/-- Dropping the nodes added since a mark leaves those from before it. -/
theorem Grown.shrink {s s' : State} (h : Grown s s') :
    s'.nodes.shrink s.nodes.size = s.nodes := by
  obtain ⟨added, ha⟩ := h.nodes
  apply Array.toList_inj.1
  rw [Array.toList_shrink, ← ha, ← Array.length_toList, List.take_left]

/-- Going back to where a parse has come from undoes it exactly. -/
theorem Grown.reset_mark {s s' : State} (h : Grown s s') : s'.reset s.mark = s := by
  simp only [State.reset, State.discard, State.mark, h.shrink]

theorem prefix_of_nodes_eq {s s' : State} (h : s'.nodes = s.nodes) :
    s.nodes.toList <+: s'.nodes.toList := by
  simp [h]

theorem Kept.advance (s : State) : Kept s s.advance := by
  rcases s.advance_cases with h | ⟨hk, ht, hn, hd, hl⟩
  · rw [h]
    exact .refl s
  · refine ⟨⟨⟨[s.current], ht, ?_, hl⟩, prefix_of_nodes_eq hn⟩, hd⟩
    simpa using hk

theorem Kept.push (s : State) (node : Node) : Kept s (s.push node) where
  tokens := ⟨[], rfl, by simp, rfl⟩
  nodes := by simp [State.push]
  depth := rfl

namespace Outcome

/-- What is kept however a step that starts at `s` ends. -/
def Keeps (setup : Setup) (s : State) : Outcome α → Prop
  | .done _ s' | .stopped (.error _) s' => Kept s s'
  | .stopped _ s' => Grown s s' ∧ s'.depth ≤ max s.depth setup.maxDepth

theorem keeps_breakOff (setup : Setup) (s : State) :
    Grown s s ∧ s.depth ≤ max s.depth setup.maxDepth := ⟨.refl s, Nat.le_max_left _ _⟩

variable {setup : Setup} {s s' : State} {why : Stop}

theorem Keeps.grown (h : Keeps setup s (.stopped why s' : Outcome α)) : Grown s s' := by
  cases why with
  | error error => exact Kept.toGrown h
  | missingNode id => exact h.1
  | exhausted => exact h.1

theorem Keeps.depth_le (h : Keeps setup s (.stopped why s' : Outcome α)) :
    s'.depth ≤ max s.depth setup.maxDepth := by
  cases why with
  | error error => exact Nat.le_trans (Nat.le_of_eq (Kept.depth h)) (Nat.le_max_left _ _)
  | missingNode id => exact h.2
  | exhausted => exact h.2

theorem Keeps.stopped (h : Keeps setup s (.stopped why s' : Outcome α)) :
    Keeps setup s (.stopped why s' : Outcome β) := by
  cases why <;> exact h

theorem Keeps.trans {outcome : Outcome α} (h : Kept s s') (h' : outcome.Keeps setup s') :
    outcome.Keeps setup s := by
  match outcome, h' with
  | .done _ _, h' => exact Kept.trans h h'
  | .stopped (.error _) _, h' => exact Kept.trans h h'
  | .stopped (.missingNode _) _, ⟨hg, hd⟩ | .stopped .exhausted _, ⟨hg, hd⟩ =>
    exact ⟨h.toGrown.trans hg, h.depth ▸ hd⟩

end Outcome

class Keeps (step : Parse α) : Prop where
  keeps (setup : Setup) (s : State) : (step setup s).Keeps setup s

theorem keeps (step : Parse α) [Keeps step] (setup : Setup) (s : State) :
    (step setup s).Keeps setup s := Keeps.keeps setup s

/-! ## Steps -/

section
variable {step : Parse α}

instance (value : α) : Keeps (pure value) := ⟨fun _ s => Kept.refl s⟩

instance (f : State → α) : Keeps (look f) := ⟨fun _ s => Kept.refl s⟩

instance (f : Setup → α) : Keeps (given f) := ⟨fun _ s => Kept.refl s⟩

instance (error : Error) : Keeps (refuse error : Parse α) := ⟨fun _ s => Kept.refl s⟩

instance : Keeps (stop .exhausted : Parse α) := ⟨Outcome.keeps_breakOff⟩

instance : Keeps advance := ⟨fun _ s => Kept.advance s⟩

instance (shape : Shape) (span : Span) : Keeps (push shape span) := ⟨fun _ s => Kept.push s _⟩

instance (id : NodeId) : Keeps (node id) where
  keeps setup s := by
    unfold node
    split
    · exact Kept.refl s
    · exact Outcome.keeps_breakOff setup s

theorem keeps_bind (step : Parse α) [Keeps step] {next : α → Parse β}
    (hn : ∀ value, Keeps (next value)) : Keeps (step >>= next) where
  keeps setup s := by
    have hs := keeps step setup s
    change (Parse.bind step next setup s).Keeps setup s
    unfold Parse.bind
    cases ho : step setup s with
    | done value s' =>
      rw [ho] at hs
      exact (keeps (next value) setup s').trans hs
    | stopped why s' =>
      rw [ho] at hs
      exact hs.stopped

instance {next : α → Parse β} [Keeps step] [hn : ∀ value, Keeps (next value)] :
    Keeps (step >>= next) := keeps_bind step hn

instance (f : α → β) [Keeps step] : Keeps (f <$> step) :=
  inferInstanceAs (Keeps (step >>= fun value => pure (f value)))

instance {c : Prop} [Decidable c] {other : Parse α} [Keeps step] [Keeps other] :
    Keeps (if c then step else other) := by
  split <;> infer_instance

instance (delimiter : Char) (construct : String) (opening : Span) [Keeps step] :
    Keeps (inside delimiter construct opening step) where
  keeps setup s := by
    have hs := keeps step setup s
    unfold inside mapError
    split
    · rename_i error s' ho
      rw [ho] at hs
      exact hs
    · exact hs

theorem keeps_iterate {turn : α → Parse (Turn α β)} [∀ a, Keeps (turn a)] (turns : Nat) (a : α) :
    Keeps (iterate turn turns a) := by
  induction turns generalizing a with
  | zero => exact inferInstanceAs (Keeps (stop .exhausted))
  | succ turns ih =>
    refine keeps_bind (turn a) fun result => ?_
    cases result with
    | again a => exact ih a
    | finish b => infer_instance

instance {turn : α → Parse (Turn α β)} [∀ a, Keeps (turn a)] (a : α) : Keeps (loop turn a) :=
  have (n : Nat) : Keeps (iterate turn (n + 1) a) := keeps_iterate (n + 1) a
  inferInstanceAs (Keeps (look State.remaining >>= fun n => iterate turn (n + 1) a))

instance {step : Parse (Option (α × Bool))} [Keeps step] : Keeps (collect step) := by
  unfold collect
  have (items : List α) (item : Option (α × Bool)) : Keeps (match item with
      | none => pure (.finish items.reverse)
      | some (item, true) => pure (.again (item :: items))
      | some (item, false) => pure (.finish (item :: items).reverse) :
        Parse (Turn (List α) (List α))) := by
    split <;> infer_instance
  infer_instance

theorem nested_apply (step : Parse α) (setup : Setup) (s : State) :
    nested step setup s =
      if s.depth < setup.maxDepth then
        match step setup s.deeper with
        | .done value s' => .done value s'.leave
        | .stopped (.error error) s' => .stopped (.error error) s'.leave
        | .stopped why s' => .stopped why s'
      else
        .stopped (.error {
          cause := .limitExceeded .depth setup.maxDepth
          span := s.current.span
          file := some setup.file }) s := by
  unfold nested
  change Parse.bind enter _ setup s = _
  by_cases h : s.depth < setup.maxDepth
  · simp only [Parse.bind, enter, h, if_true]
    rfl
  · simp only [Parse.bind, enter, h, if_false]

/-- A step one level deeper comes back to the level it started from. -/
instance [Keeps step] : Keeps (nested step) where
  keeps setup s := by
    rw [nested_apply]
    split
    · rename_i hlimit
      have hs := keeps step setup s.deeper
      split
      · rename_i value s' ho
        rw [ho] at hs
        exact ⟨⟨hs.tokens, hs.nodes⟩, by simp [State.leave, State.deeper, hs.depth]⟩
      · rename_i error s' ho
        rw [ho] at hs
        exact ⟨⟨hs.tokens, hs.nodes⟩, by simp [State.leave, State.deeper, hs.depth]⟩
      · rename_i why s' hne ho
        rw [ho] at hs
        have hg : Grown s s' := ⟨hs.grown.tokens, hs.grown.nodes⟩
        have hd : s'.depth ≤ max s.depth setup.maxDepth := by
          have hinner : s'.depth ≤ max (s.depth + 1) setup.maxDepth := hs.depth_le
          omega
        cases why with
        | error error => exact absurd rfl (hne error)
        | missingNode id => exact ⟨hg, hd⟩
        | exhausted => exact ⟨hg, hd⟩
    · exact Kept.refl s

end

/-! ## Tokens, errors and nodes -/

instance (kind : Token.Kind) : Keeps (isAt kind) := inferInstanceAs (Keeps (look _))

instance {sign : Parse Bool} {step : Parse α} [Keeps sign] [Keeps step] :
    Keeps (optionally sign step) := by unfold optionally; infer_instance

instance (kind : Token.Kind) : Keeps (eat kind) := by unfold eat; infer_instance

instance (word : String) : Keeps (eatWord word) := by unfold eatWord; infer_instance

instance (cause : Cause) (span : Span) (expected : List Expected) :
    Keeps (errorAt cause span expected) := inferInstanceAs (Keeps (given _))

instance (expected : List Expected) (note : Option String) : Keeps (unexpected expected note) := by
  unfold unexpected; infer_instance

instance (expected : Expected) : Keeps (misplaced expected) := by
  unfold misplaced; infer_instance

instance (kind : Token.Kind) {error : Parse Error} [Keeps error] : Keeps (expectOr kind error) := by
  unfold expectOr; infer_instance

instance (kind : Token.Kind) : Keeps (expect kind) := by unfold expect; infer_instance

instance (start : Nat) (shape : Shape) : Keeps (pushFrom start shape) := by
  unfold pushFrom; infer_instance

instance (id : NodeId) : Keeps (spanOf id) := by unfold spanOf; infer_instance

/-! ## Names and lists -/

instance : Keeps name := by unfold name; infer_instance

instance : Keeps path := by unfold path; infer_instance

instance (close : Token.Kind) {element : Parse NodeId} [Keeps element] :
    Keeps (delimited close element) := by unfold delimited; infer_instance

instance {item : Parse NodeId} [Keeps item] : Keeps (bracedItems item) := by
  unfold bracedItems; infer_instance

/-! ## Rules -/

instance : Keeps primary := by
  unfold primary
  have (token : Token) : Keeps (match Text.integer? token.value with
      | some value => do
        let _ ← advance
        push (.integer value) token.span
      | none => do refuse (← errorAt (.numberTooLarge token.value) token.span [])) := by
    split <;> infer_instance
  have (token : Token) : Keeps (match token.kind with
      | .integer =>
        match Text.integer? token.value with
        | some value => do
          let _ ← advance
          push (.integer value) token.span
        | none => do refuse (← errorAt (.numberTooLarge token.value) token.span [])
      | .string => do
        let _ ← advance
        push (.string token.value) token.span
      | .identifier | .builtIn => do
        let name ← name
        push (.identifier (.single name)) name.span
      | _ => do refuse (← unexpected [.expression])) := by
    split <;> infer_instance
  infer_instance

instance : Keeps importStatement := by unfold importStatement; infer_instance

instance (left : NodeId) : Keeps (member left) := by unfold member; infer_instance

instance : Keeps externalModule := by unfold externalModule; infer_instance

instance : Keeps external := by unfold external; infer_instance

section
variable {run : Rule → Parse NodeId} [∀ rule, Keeps (run rule)]
set_option synthInstance.maxSize 512

instance : Keeps (value run) := inferInstanceAs (Keeps (run _))

instance : Keeps (typeExpression run) := inferInstanceAs (Keeps (run _))

instance : Keeps (operand run) := by
  unfold operand
  have (form : Option Form) (called : Bool) : Keeps (match form with
      | some form => run (.form form)
      | none =>
        if called then run (.form .statement) else do refuse (← misplaced .expression)) := by
    split <;> infer_instance
  infer_instance

instance (power : Power) : Keeps (expression run power) := by unfold expression; infer_instance

instance (left : NodeId) (power : Power) : Keeps (continuation run left power) := by
  unfold continuation
  have (left : NodeId) (entry : Option (Power × Suffix)) : Keeps (match entry with
      | some (next, suffix) =>
        if next.tighter power then return .again (← run (.suffix suffix left next))
        else return .finish left
      | none => return .finish left : Parse (Turn NodeId NodeId)) := by
    split <;> infer_instance
  infer_instance

instance : Keeps (unary run) := by unfold unary; infer_instance

instance (left : NodeId) (power : Power) : Keeps (binary run left power) := by
  unfold binary
  have (op : Option BinaryOp) : Keeps (match op with
      | some op => do
        let _ ← advance
        let right ← run (.expression power)
        let leftSpan ← spanOf left
        push (.binary op left right) (leftSpan.merge (← spanOf right))
      | none => do refuse (← unexpected [])) := by
    split <;> infer_instance
  infer_instance

instance (left : NodeId) : Keeps (call run left) := by unfold call; infer_instance

instance (left : NodeId) : Keeps (index run left) := by unfold index; infer_instance

instance : Keeps (grouping run) := by unfold grouping; infer_instance

instance (construct : String) : Keeps (tuple run construct) := by unfold tuple; infer_instance

instance : Keeps (array run) := by unfold array; infer_instance

instance (construct : String) (opening : Span) :
    Keeps (bracedStatements run construct opening) := by
  unfold bracedStatements; infer_instance

instance : Keeps (block run) := by unfold block; infer_instance

instance (allowDefault : Bool) : Keeps (pattern run allowDefault) := by
  unfold pattern
  have (form : Option PatternForm) : Keeps (match form with
      | some form => run (.pattern form allowDefault)
      | none => do refuse (← misplaced .pattern)) := by
    split <;> infer_instance
  infer_instance

instance : Keeps (restPattern run) := by unfold restPattern; infer_instance

instance (allowDefault : Bool) : Keeps (namedPattern run allowDefault) := by
  unfold namedPattern; infer_instance

instance : Keeps (annotatedType run) := by unfold annotatedType; infer_instance

instance (allowDefault : Bool) : Keeps (identifierPattern run allowDefault) := by
  unfold identifierPattern; infer_instance

instance : Keeps (tuplePattern run) := by unfold tuplePattern; infer_instance

instance : Keeps (enumPattern run) := by unfold enumPattern; infer_instance

instance : Keeps (literalPattern run) := by unfold literalPattern; infer_instance

instance : Keeps (attributeList run) := by unfold attributeList; infer_instance

instance : Keeps (signatureAttributes run) := by unfold signatureAttributes; infer_instance

instance : Keeps (signature run) := by unfold signature; infer_instance

instance : Keeps (statement run) := by
  unfold statement
  have (form : Option Form) : Keeps (match form with
      | some form => run (.form form)
      | none => do refuse (← misplaced .statement)) := by
    split <;> infer_instance
  infer_instance

instance : Keeps (statementOrBlock run) := by unfold statementOrBlock; infer_instance

instance : Keeps (elseBranch run) := by unfold elseBranch; infer_instance

instance (start : Nat) : Keeps (letVariable run start) := by unfold letVariable; infer_instance

instance : Keeps (doStatement run) := by unfold doStatement; infer_instance

instance : Keeps (returnStatement run) := by unfold returnStatement; infer_instance

instance : Keeps (statementList run) := by unfold statementList; infer_instance

instance : Keeps (moreAttributes run) := by unfold moreAttributes; infer_instance

instance : Keeps (yieldStatement run) := by unfold yieldStatement; infer_instance

instance : Keeps (ifStatement run) := by unfold ifStatement; infer_instance

/-- Where the tokens are no head of a range, the parse goes back to where it was. -/
theorem rangeHead_apply (setup : Setup) (s : State) :
    rangeHead run setup s =
      if s.kind = .openParen then
        match run (.pattern .any false) setup s.advance with
        | .done pattern s' =>
          if s'.kind = .inWord then .done (some (s.current.span, pattern)) s'.advance
          else .done none s
        | .stopped (.error _) _ => .done none s
        | .stopped why s' => .stopped why s'
      else .done none s := by
  have hp := keeps (run (.pattern .any false)) setup s.advance
  by_cases h : s.kind = .openParen
  · simp only [rangeHead, Bind.bind, Parse.bind, isAt, look, h, beq_self_eq_true, if_true, advance,
      attempt]
    cases ho : run (.pattern .any false) setup s.advance with
    | done pattern s' =>
      rw [ho] at hp
      have hg : Grown s s' := ((Kept.advance s).trans hp).toGrown
      by_cases hi : s'.kind = .inWord
      · simp [eat, isAt, look, Bind.bind, Parse.bind, Pure.pure, Parse.pure, advance, hi]
      · simp [eat, isAt, look, Bind.bind, Parse.bind, Pure.pure, Parse.pure, change, hi,
          hg.reset_mark]
    | stopped why s' =>
      rw [ho] at hp
      have hg : Grown s s' := (Kept.advance s).toGrown.trans hp.grown
      cases why with
      | error error => simp [change, hg.reset_mark, Parse.bind, Pure.pure, Parse.pure]
      | missingNode id => rfl
      | exhausted => rfl
  · simp [rangeHead, Bind.bind, Parse.bind, isAt, look, h, Pure.pure, Parse.pure]

instance : Keeps (rangeHead run) where
  keeps setup s := by
    have hp := keeps (run (.pattern .any false)) setup s.advance
    rw [rangeHead_apply]
    split
    · split
      · rename_i pattern s' ho
        rw [ho] at hp
        split
        · exact ((Kept.advance s).trans hp).trans (Kept.advance s')
        · exact Kept.refl s
      · exact Kept.refl s
      · rename_i why s' _ ho
        rw [ho] at hp
        exact (hp.trans (Kept.advance s)).stopped
    · exact Kept.refl s

instance : Keeps (eachStatement run) := by
  unfold eachStatement
  have (start : Nat) (head : Option (Span × NodeId)) : Keeps (match head with
      | some (opening, pattern) => do
        let range ← inside '(' "range header" opening do
          let range ← value run
          let _ ← expect .closeParen
          return range
        let body ← value run
        pushFrom start (.eachRange pattern range body)
      | none => do
        let binding ← letVariable run (← look (·.current.span.start))
        let body ← statementOrBlock run
        pushFrom start (.each binding body)) := by
    split <;> infer_instance
  infer_instance

instance (note : String) (expected : List Expected) : Keeps (body run note expected) := by
  unfold body
  have (kind : Token.Kind) : Keeps (match kind with
      | .assignment => do
        let _ ← advance
        return .value (← value run)
      | .openCurly => return .block (← run (.form .block))
      | _ => do refuse (← unexpected expected note) : Parse Body) := by
    split <;> infer_instance
  infer_instance

instance : Keeps (casePattern run) := by unfold casePattern; infer_instance

instance : Keeps (matchCase run) := by unfold matchCase; infer_instance

instance : Keeps (matchStatement run) := by unfold matchStatement; infer_instance

instance (start : Nat) : Keeps (letFunction run start) := by unfold letFunction; infer_instance

instance (start : Nat) : Keeps (letStruct run start) := by unfold letStruct; infer_instance

instance (start : Nat) : Keeps (letEnum run start) := by unfold letEnum; infer_instance

instance : Keeps (letStatement run) := by
  unfold letStatement
  have (start : Nat) (kind : Token.Kind) : Keeps (match kind with
      | .structWord => letStruct run start
      | .enumWord => letEnum run start
      | .identifier | .builtIn => do
        if (← look (·.peek 1)) = .openParen then letFunction run start else letVariable run start
      | _ => letVariable run start) := by
    split <;> infer_instance
  infer_instance

instance (form : Form) : Keeps (form.body run) := by
  cases form <;> unfold Form.body <;> infer_instance

instance (left : NodeId) (power : Power) (suffix : Suffix) :
    Keeps (suffix.body run left power) := by
  cases suffix <;> unfold Suffix.body <;> infer_instance

instance (allowDefault : Bool) (form : PatternForm) : Keeps (form.body run allowDefault) := by
  cases form <;> unfold PatternForm.body <;> infer_instance

instance (rule : Rule) : Keeps (rule.body run) := by
  cases rule <;> unfold Rule.body <;> infer_instance

end

instance keeps_runWith (fuel : Nat) (rule : Rule) : Keeps (Rule.runWith fuel rule) := by
  induction fuel generalizing rule with
  | zero => exact inferInstanceAs (Keeps (stop .exhausted))
  | succ fuel ih => exact inferInstanceAs (Keeps (rule.body (Rule.runWith fuel)))

/-- Every rule, however it ends, only moves forward and only adds nodes. -/
instance keeps_parse (rule : Rule) : Keeps rule.parse where
  keeps setup s := keeps (Rule.runWith (Rule.fuel setup s) rule) setup s

end Parse
end Smaug
