import Mathlib
import Smaug.Parse.Parsed
import Smaug.Proofs.Parse.Passing

/-! # Steps without what stands behind the end

The token that ends the input is never passed, and nothing is looked at behind it.  So a step does
the same where all that stands behind it is taken away, as long as it may take as many turns.
-/

namespace Smaug.Parse

def uptoEnd : List Token → List Token
  | [] => []
  | token :: tokens => if token.kind = .eof then [token] else token :: uptoEnd tokens

theorem uptoEnd_append {before rest : List Token} {stop : Token} (h : stop.kind = .eof) :
    uptoEnd (before ++ stop :: rest) = uptoEnd (before ++ [stop]) := by
  induction before with
  | nil => simp [uptoEnd, h]
  | cons token before ih => simp only [List.cons_append, uptoEnd, ih]

theorem length_uptoEnd_le (tokens : List Token) : (uptoEnd tokens).length ≤ tokens.length := by
  induction tokens with
  | nil => exact Nat.le_refl _
  | cons token tokens ih =>
    unfold uptoEnd
    split
    · exact Nat.succ_le_succ (Nat.zero_le _)
    · exact Nat.succ_le_succ ih

theorem getLast?_uptoEnd {tokens : List Token} {token : Token} (hm : token ∈ tokens)
    (hk : token.kind = .eof) :
    ∃ last, (uptoEnd tokens).getLast? = some last ∧ last.kind = .eof := by
  induction tokens with
  | nil => cases hm
  | cons first tokens ih =>
    unfold uptoEnd
    split
    · rename_i hf
      exact ⟨first, rfl, hf⟩
    · rename_i hf
      have hm : token ∈ tokens := (List.mem_cons.1 hm).resolve_left (by rintro rfl; exact hf hk)
      obtain ⟨last, hl, he⟩ := ih hm
      exact ⟨last, by simp [List.getLast?_cons, hl], he⟩

namespace State

def trim (s : State) : State := { s with ahead := if s.hasTokens then uptoEnd s.ahead else [] }

@[simp] theorem trim_current (s : State) : s.trim.current = s.current := rfl
@[simp] theorem trim_kind (s : State) : s.trim.kind = s.kind := rfl
@[simp] theorem trim_hasTokens (s : State) : s.trim.hasTokens = s.hasTokens := rfl
@[simp] theorem trim_nodes (s : State) : s.trim.nodes = s.nodes := rfl
@[simp] theorem trim_depth (s : State) : s.trim.depth = s.depth := rfl
@[simp] theorem trim_deeper (s : State) : s.deeper.trim = s.trim.deeper := rfl

theorem trim_tokens (s : State) : s.trim.tokens = uptoEnd s.tokens := by
  rw [tokens, tokens, uptoEnd]
  by_cases hk : s.current.kind = .eof <;> simp [trim, hasTokens, kind, hk]

theorem trim_remaining_le (s : State) : s.trim.remaining ≤ s.remaining := by
  rw [← length_tokens, ← length_tokens, trim_tokens]
  exact length_uptoEnd_le _

theorem trim_advance (s : State) : s.advance.trim = s.trim.advance := by
  obtain ⟨current, ahead, nodes, depth, lastStop⟩ := s
  cases ahead with
  | nil => by_cases hk : current.kind = .eof <;> simp [trim, advance, hasTokens, kind, uptoEnd, hk]
  | cons next ahead =>
    by_cases hk : current.kind = .eof
    · simp [trim, advance, hasTokens, kind, hk]
    · by_cases hn : next.kind = .eof <;>
        simp [trim, advance, hasTokens, kind, uptoEnd, hk, hn]

/-- Before the end of the input the next token is the same. -/
theorem trim_peek {s : State} (h : s.hasTokens) : s.trim.peek 1 = s.peek 1 := by
  obtain ⟨current, ahead, nodes, depth, lastStop⟩ := s
  cases ahead with
  | nil => simp [trim, peek, uptoEnd]
  | cons next ahead =>
    by_cases hn : next.kind = .eof <;> simp [trim, peek, uptoEnd, h, hn]

theorem Ended.trim {s : State} (h : s.Ended) : s.trim.Ended := by
  obtain ⟨last, hl, hk⟩ := h
  obtain ⟨last, hl, hk⟩ := getLast?_uptoEnd (List.mem_of_getLast? hl) hk
  exact ⟨last, by rw [trim_tokens, hl], hk⟩

end State

def Outcome.trim : Outcome α → Outcome α
  | .done value s => .done value s.trim
  | .stopped why s => .stopped why s.trim

def Outcome.IsExhausted (outcome : Outcome α) : Prop := ∃ s, outcome = .stopped .exhausted s

/-- One step runs out of turns, or does with nothing behind the end of the input what the other does
with something there. -/
class Trims (step step' : Parse α) : Prop where
  outcome (setup : Setup) (s : State) :
    (step setup s.trim).IsExhausted ∨ step setup s.trim = (step' setup s).trim

theorem trims (step step' : Parse α) [h : Trims step step'] (setup : Setup) (s : State) :
    (step setup s.trim).IsExhausted ∨ step setup s.trim = (step' setup s).trim :=
  h.outcome setup s

/-! ## Steps -/

section
variable {step step' : Parse α} {setup : Setup} {s : State}

theorem bind_isExhausted {next : α → Parse β} (h : (step setup s).IsExhausted) :
    ((step >>= next) setup s).IsExhausted := by
  obtain ⟨s', hs⟩ := h
  refine ⟨s', ?_⟩
  change Parse.bind step next setup s = _
  unfold Parse.bind
  rw [hs]

theorem trims_bind_at {next next' : α → Parse β}
    (h : (step setup s.trim).IsExhausted ∨ step setup s.trim = (step' setup s).trim)
    (hn : ∀ a s', step' setup s = .done a s' →
      (next a setup s'.trim).IsExhausted ∨ next a setup s'.trim = (next' a setup s').trim) :
    ((step >>= next) setup s.trim).IsExhausted ∨
      (step >>= next) setup s.trim = ((step' >>= next') setup s).trim := by
  rcases h with h | h
  · exact .inl (bind_isExhausted h)
  · change (Parse.bind step next setup s.trim).IsExhausted ∨
      Parse.bind step next setup s.trim = (Parse.bind step' next' setup s).trim
    unfold Parse.bind
    rw [h]
    cases ho : step' setup s with
    | done a s' => exact hn a s' ho
    | stopped why s' => exact .inr rfl

theorem trims_bind {next next' : α → Parse β} (h : Trims step step')
    (hn : ∀ a, Trims (next a) (next' a)) : Trims (step >>= next) (step' >>= next') :=
  ⟨fun setup s => trims_bind_at (h.outcome setup s) fun a s' _ => (hn a).outcome setup s'⟩

instance {next next' : α → Parse β} [h : Trims step step'] [hn : ∀ a, Trims (next a) (next' a)] :
    Trims (step >>= next) (step' >>= next') := trims_bind h hn

theorem trims_look {f : State → α} (h : ∀ s, f (State.trim s) = f s) : Trims (look f) (look f) :=
  ⟨fun setup s => .inr (by unfold look; rw [h]; rfl)⟩

instance (value : α) : Trims (pure value) (pure value) := ⟨fun _ _ => .inr rfl⟩

instance (error : Error) : Trims (refuse error : Parse α) (refuse error) := ⟨fun _ _ => .inr rfl⟩

instance (f : Setup → α) : Trims (given f) (given f) := ⟨fun _ _ => .inr rfl⟩

theorem trims_exhausted : Trims (stop .exhausted) step' := ⟨fun _ s => .inl ⟨s.trim, rfl⟩⟩

instance (f : α → β) [h : Trims step step'] : Trims (f <$> step) (f <$> step') :=
  trims_bind h fun _ => ⟨fun _ _ => .inr rfl⟩

instance {c : Prop} [Decidable c] {other other' : Parse α} [Trims step step']
    [Trims other other'] : Trims (if c then step else other) (if c then step' else other') := by
  split <;> infer_instance

instance : Trims advance advance :=
  ⟨fun _ s => .inr (by simp only [advance, Outcome.trim, s.trim_advance, State.trim_current])⟩

instance (shape : Shape) (span : Span) : Trims (push shape span) (push shape span) :=
  ⟨fun _ _ => .inr rfl⟩

instance (id : NodeId) : Trims (node id) (node id) where
  outcome setup s := by
    right
    unfold node
    rw [State.trim_nodes]
    split <;> rfl

instance (delimiter : Char) (construct : String) (opening : Span) [h : Trims step step'] :
    Trims (inside delimiter construct opening step) (inside delimiter construct opening step') where
  outcome setup s := by
    unfold inside mapError
    rcases h.outcome setup s with ⟨s', h⟩ | h
    · exact .inl ⟨s', by rw [h]⟩
    · right
      rw [h]
      cases step' setup s with
      | done => rfl
      | stopped why => cases why <;> rfl

theorem trims_iterate {turn turn' : α → Parse (Turn α β)} (h : ∀ a, Trims (turn a) (turn' a))
    {turns turns' : Nat} (hle : turns ≤ turns') (a : α) :
    Trims (iterate turn turns a) (iterate turn' turns' a) := by
  induction turns generalizing turns' a with
  | zero => exact trims_exhausted
  | succ turns ih =>
    obtain ⟨turns', rfl⟩ : ∃ n, turns' = n + 1 := ⟨turns' - 1, by omega⟩
    refine trims_bind (h a) fun result => ?_
    cases result with
    | again a => exact ih (Nat.le_of_succ_le_succ hle) a
    | finish b => exact inferInstanceAs (Trims (pure b) (pure b))

/-- With something behind the end of the input a loop may take more turns. -/
theorem trims_loop {turn turn' : α → Parse (Turn α β)} (h : ∀ a, Trims (turn a) (turn' a)) (a : α) :
    Trims (loop turn a) (loop turn' a) :=
  ⟨fun setup s =>
    (trims_iterate h (Nat.succ_le_succ s.trim_remaining_le) a).outcome setup s⟩

instance {step step' : Parse (Option (α × Bool))} [h : Trims step step'] :
    Trims (collect step) (collect step') := by
  refine trims_loop (fun items => trims_bind h fun item => ?_) []
  split <;> infer_instance

instance [h : Trims step step'] : Trims (nested step) (nested step') where
  outcome setup s := by
    have ho := h.outcome setup s.deeper
    rw [State.trim_deeper] at ho
    rw [nested_apply, nested_apply, State.trim_depth]
    by_cases hd : s.depth < setup.maxDepth
    · rw [if_pos hd, if_pos hd]
      rcases ho with ⟨s', ho⟩ | ho
      · exact .inl ⟨s', by rw [ho]⟩
      · right
        rw [ho]
        cases step' setup s.deeper with
        | done => rfl
        | stopped why => cases why <;> rfl
    · rw [if_neg hd, if_neg hd]
      exact .inr rfl

end

/-! ## Tokens, errors and nodes -/

instance : Trims (look State.current) (look State.current) := trims_look fun _ => rfl

instance : Trims (look State.kind) (look State.kind) := trims_look fun _ => rfl

instance : Trims (look (·.current.span)) (look (·.current.span)) := trims_look fun _ => rfl

instance : Trims (look (·.current.span.start)) (look (·.current.span.start)) :=
  trims_look fun _ => rfl

instance (start : Nat) : Trims (look (·.spanFrom start)) (look (·.spanFrom start)) :=
  trims_look fun _ => rfl

instance (word : String) :
    Trims (look (·.current.isWord word)) (look (·.current.isWord word)) := trims_look fun _ => rfl

instance (kind : Token.Kind) : Trims (isAt kind) (isAt kind) := trims_look fun _ => rfl

instance (cause : Cause) (span : Span) (expected : List Expected) :
    Trims (errorAt cause span expected) (errorAt cause span expected) :=
  inferInstanceAs (Trims (given _) (given _))

section
variable {step step' : Parse α}

instance {sign sign' : Parse Bool} [Trims sign sign'] [Trims step step'] :
    Trims (optionally sign step) (optionally sign' step') := by
  unfold optionally; infer_instance

end

instance (kind : Token.Kind) : Trims (eat kind) (eat kind) := by unfold eat; infer_instance

instance (word : String) : Trims (eatWord word) (eatWord word) := by
  unfold eatWord; infer_instance

instance (start : Nat) (shape : Shape) : Trims (pushFrom start shape) (pushFrom start shape) := by
  unfold pushFrom; infer_instance

instance (id : NodeId) : Trims (spanOf id) (spanOf id) := by unfold spanOf; infer_instance

instance (expected : List Expected) (note : Option String) :
    Trims (unexpected expected note) (unexpected expected note) := by
  unfold unexpected; infer_instance

instance (expected : Expected) : Trims (misplaced expected) (misplaced expected) := by
  unfold misplaced; infer_instance

instance (kind : Token.Kind) {error error' : Parse Error} [Trims error error'] :
    Trims (expectOr kind error) (expectOr kind error') := by
  unfold expectOr; infer_instance

instance (kind : Token.Kind) : Trims (expect kind) (expect kind) := by
  unfold expect; infer_instance

/-! ## Names and lists -/

instance : Trims name name := by unfold name; infer_instance

instance : Trims path path := by unfold path; infer_instance

instance (close : Token.Kind) {element element' : Parse NodeId} [Trims element element'] :
    Trims (delimited close element) (delimited close element') := by
  unfold delimited; infer_instance

instance {item item' : Parse NodeId} [Trims item item'] :
    Trims (bracedItems item) (bracedItems item') := by
  have : Trims (look fun s => s.hasTokens && s.kind != .closeCurly)
      (look fun s => s.hasTokens && s.kind != .closeCurly) := trims_look fun _ => rfl
  unfold bracedItems; infer_instance

instance : Trims header header := by unfold header; infer_instance

end Smaug.Parse
