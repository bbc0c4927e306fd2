import Smaug.Proofs.Parse.Reached
import Smaug.Proofs.Parse.Script

/-! # The moments of a parse

The states that the parse of a module goes through, from its first token on: those within the header
and the statements, those that are taken back, and those passed while it goes on after a failure.
Each is a single change behind the one before, and the tree is taken from the last.
-/

namespace Smaug.Parse

inductive Changes : State → State → Prop
  | advance (s : State) : Changes s s.advance
  | push (s : State) (node : Node) : Changes s (s.push node)
  | deeper (s : State) : Changes s s.deeper
  | leave (s : State) : Changes s s.leave
  | reset (s : State) (mark : Mark) : Changes s (s.reset mark)
  | discard (s : State) (mark : Mark) : Changes s (s.discard mark)

/-- The states come from `s` on one change behind the other, and the last of them is `s'`. -/
inductive Course : State → List State → State → Prop
  | nil : Course s [] s
  | cons (hc : Changes s t) (h : Course t ts s') : Course s (t :: ts) s'

namespace Course

theorem single {s s' : State} (h : Changes s s') : Course s [s'] s' := .cons h .nil

/-- The last state is one of those gone through, unless there is none. -/
theorem last {s s' : State} {ts : List State} (h : Course s ts s') : s' = s ∨ s' ∈ ts := by
  induction h with
  | nil => exact .inl rfl
  | cons _ _ ih =>
    rcases ih with rfl | ih
    · exact .inr List.mem_cons_self
    · exact .inr (List.mem_cons_of_mem _ ih)

theorem append {s s₁ s' : State} {ts us : List State} (h : Course s ts s₁)
    (h' : Course s₁ us s') : Course s (ts ++ us) s' := by
  induction h with
  | nil => exact h'
  | cons hc _ ih => exact .cons hc (ih h')

end Course

def Outcome.state : Outcome α → State
  | .done _ s | .stopped _ s => s

/-- What a step goes through leads change by change to where it ends. -/
theorem Script.course {step : Parse α} (script : Script step) (setup : Setup) (s : State) :
    Course s (script.trace setup s) (step setup s).state := by
  induction script generalizing s with
  | pure | look | given | exhausted => exact .nil
  | advance => exact .single (.advance s)
  | push => exact .single (.push s _)
  | reset mark => exact .single (.reset s mark)
  | @refuse _ step hm =>
    obtain ⟨e, he, -⟩ := hm.makes setup s
    change Course s [] (Parse.bind step _ setup s).state
    simp only [Parse.bind, he]
    exact .nil
  | node id =>
    change Course s [] (Parse.node id setup s).state
    unfold Parse.node
    split <;> exact .nil
  | @bind _ _ step next first rest ihf ihr =>
    change Course s _ (Parse.bind step next setup s).state
    have hf := ihf s
    unfold Parse.bind
    rw [trace]
    cases ho : step setup s with
    | done a s₁ =>
      rw [ho] at hf
      exact hf.append (ihr a s₁)
    | stopped why s₁ =>
      rw [ho] at hf
      rw [List.append_nil]
      exact hf
  | @inside _ step delimiter construct opening script ih =>
    have h := ih s
    change Course s (script.trace setup s) _
    unfold Parse.inside mapError
    split
    · rename_i ho
      rw [ho] at h
      exact h
    · exact h
  | @attempt _ step script ih =>
    have h := ih s
    change Course s (script.trace setup s) _
    unfold Parse.attempt
    cases ho : step setup s with
    | done a s₁ =>
      rw [ho] at h
      exact h
    | stopped why s₁ =>
      rw [ho] at h
      cases why <;> exact h
  | @nested _ step script ih =>
    have h := ih s.deeper
    rw [trace, nested_apply]
    split
    · refine .cons (.deeper s) ?_
      cases ho : step setup s.deeper with
      | done a s₁ =>
        rw [ho] at h
        exact h.append (.single (.leave s₁))
      | stopped why s₁ =>
        rw [ho] at h
        cases why with
        | error error => exact h.append (.single (.leave s₁))
        | missingNode => simpa using h
        | exhausted => simpa using h
    · exact .nil

end Smaug.Parse

namespace Smaug

def Rule.moments (rule : Rule) (setup : Parse.Setup) (s : Parse.State) : List Parse.State :=
  (Parse.Script.instRunWith (Rule.fuel setup s) rule).trace setup s

namespace Parse

theorem Rule.course (rule : Rule) (setup : Setup) (s : State) :
    Course s (rule.moments setup s) (rule.parse setup s).state :=
  (Script.instRunWith (Rule.fuel setup s) rule).course setup s

def skipMoments : Nat → State → List State
  | 0, _ => []
  | tokens + 1, s =>
    match s.kind with
    | .eof | .letWord | .importWord => []
    | .closeCurly => [s.advance]
    | _ => s.advance :: skipMoments tokens s.advance

def recoverMoments (mark : Mark) (s : State) : List State :=
  let s := s.discard mark
  if s.ahead.length = mark.ahead.length ∧ s.hasTokens then
    let next := s.advance
    if s.kind = .closeCurly then [s, next] else s :: next :: skipMoments next.remaining next
  else s :: skipMoments s.remaining s

def topLevelMoments (setup : Setup) (strict : Bool) : Nat → State → List State
  | 0, _ => []
  | turns + 1, s =>
    if s.hasTokens then
      (Rule.form .statement).moments setup s ++
        match (Rule.form .statement).parse setup s with
        | .done _ s' => topLevelMoments setup strict turns s'
        | .stopped (.error error) s' =>
          if error.classify = .resource then []
          else if strict then [s'.discard s.mark]
          else recoverMoments s.mark s' ++ topLevelMoments setup strict turns (recover s.mark s')
        | .stopped _ s' => [s'.discard s.mark]
    else []

def headerMoments (setup : Setup) (s : State) : List State :=
  (inferInstance : Script header).trace setup s

def moduleMoments (tokens : List Token) (setup : Setup) (strict : Bool) : List State :=
  let s := State.start tokens
  headerMoments setup s ++
    match header setup s with
    | .done _ s' => topLevelMoments setup strict s'.remaining s'
    | .stopped (.error _) s' =>
      if strict then []
      else
        let next := recover s.mark s'
        recoverMoments s.mark s' ++ topLevelMoments setup false next.remaining next
    | .stopped .. => []

/-! ## Their course -/

theorem skipMoments_course (n : Nat) (s : State) :
    Course s (skipMoments n s) (skipStatement n s) := by
  induction n generalizing s with
  | zero => exact .nil
  | succ n ih =>
    unfold skipMoments skipStatement
    cases s.kind with
    | eof | letWord | importWord => exact .nil
    | closeCurly => exact .single (.advance s)
    | _ => exact .cons (.advance s) (ih s.advance)

theorem recoverMoments_course (mark : Mark) (s : State) :
    Course s (recoverMoments mark s) (recover mark s) := by
  have hd := Changes.discard s mark
  have ha := Changes.advance (s.discard mark)
  unfold recoverMoments recover
  dsimp only
  split
  · split
    · exact .cons hd (.single ha)
    · exact .cons hd (.cons ha (skipMoments_course _ _))
  · exact .cons hd (skipMoments_course _ _)

/-- Statements are read change by change, and the tree is taken from the last state. -/
theorem topLevelMoments_course (setup : Setup) (strict : Bool) (turns : Nat) (s : State)
    (ids : Array NodeId) (errors : Array Error) :
    ∃ last, Course s (topLevelMoments setup strict turns s) last ∧
      ∀ s' ∈ (topLevel setup strict turns s ids errors).state, s' = last := by
  induction turns generalizing s ids errors with
  | zero => exact ⟨s, .nil, fun s' h => (Option.some.inj h).symm⟩
  | succ turns ih =>
    have hc := Rule.course (.form .statement) setup s
    rw [topLevelMoments, topLevel]
    split
    · cases hd : (Rule.form .statement).parse setup s with
      | done id s₁ =>
        rw [hd] at hc
        obtain ⟨last, hl, hs⟩ := ih s₁ (ids.push id) errors
        exact ⟨last, hc.append hl, hs⟩
      | stopped why s₁ =>
        rw [hd] at hc
        have hdiscard : Course s ((Rule.form .statement).moments setup s ++ [s₁.discard s.mark])
            (s₁.discard s.mark) := hc.append (.single (.discard s₁ s.mark))
        cases why with
        | missingNode | exhausted =>
          exact ⟨_, hdiscard, fun s' h => (Option.some.inj h).symm⟩
        | error error =>
          dsimp only
          split
          · rw [List.append_nil]
            exact ⟨s₁, hc, fun s' h => by cases h⟩
          · split
            · exact ⟨_, hdiscard, fun s' h => (Option.some.inj h).symm⟩
            · obtain ⟨last, hl, hs⟩ := ih (recover s.mark s₁) ids (errors.push error)
              exact ⟨last, hc.append ((recoverMoments_course s.mark s₁).append hl), hs⟩
    · exact ⟨s, .nil, fun s' h => (Option.some.inj h).symm⟩

end Parse

open Parse

/-- A module is read change by change, and the nodes of its tree are those of the last state, unless
a limit was exceeded or the header of a strict parse fails. -/
theorem Parsed.ofTokens_course (tokens : Tokens) (file : String) (options : Options) :
    ∃ last, Course (.start tokens.tokens)
        (moduleMoments tokens.tokens (.standard file options) options.isStrict) last ∧
      ((ofTokens tokens file options).tree = { file } ∨
        (ofTokens tokens file options).tree.nodes = last.nodes) := by
  have hc : Course (.start tokens.tokens)
      (headerMoments (.standard file options) (.start tokens.tokens))
      (header (.standard file options) (.start tokens.tokens)).state :=
    Script.course inferInstance _ _
  have finish {header : Option NodeId} {progress : Progress} {last : State}
      (h : ∀ s' ∈ progress.state, s' = last) :
      (ofProgress file tokens.trivia header progress).tree = { file } ∨
        (ofProgress file tokens.trivia header progress).tree.nodes = last.nodes := by
    unfold ofProgress
    cases hs : progress.state with
    | none => exact .inl rfl
    | some s' => exact .inr (congrArg State.nodes (h s' hs))
  unfold moduleMoments ofTokens
  cases hd : header (.standard file options) (State.start tokens.tokens) with
  | done first s =>
    rw [hd] at hc
    obtain ⟨last, hl, hs⟩ := topLevelMoments_course (.standard file options) options.isStrict
      s.remaining s #[] #[]
    simp only [hd]
    exact ⟨last, hc.append hl, finish hs⟩
  | stopped why s =>
    rw [hd] at hc
    simp only [hd]
    cases why with
    | missingNode | exhausted =>
      rw [List.append_nil]
      exact ⟨s, hc, .inl rfl⟩
    | error error =>
      cases options.isStrict with
      | true =>
        simp only [if_true, List.append_nil]
        exact ⟨s, hc, .inl trivial⟩
      | false =>
        let next := recover (State.start tokens.tokens).mark s
        obtain ⟨last, hl, hs⟩ := topLevelMoments_course (.standard file options) false
          next.remaining next #[] #[error]
        exact ⟨last, hc.append ((recoverMoments_course _ s).append hl), finish hs⟩

end Smaug
