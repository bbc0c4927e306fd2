import Mathlib
import Smaug.Parse.Parsed
import Smaug.Proofs.Parse.Kept

/-! # Steps with more room

With more room for nesting a step does what it has done with less, unless it gave up there.  No step
looks at the level of nesting but to compare it with the limit, so nothing else can change.
-/

namespace Smaug.Parse

/-- A step has come to a limit, or could not go on. -/
def Outcome.GivesUp : Outcome α → Prop
  | .done .. => False
  | .stopped (.error error) _ => error.classify = .resource
  | .stopped .. => True

theorem Outcome.GivesUp.stopped {why : Stop} {s : State}
    (h : (.stopped why s : Outcome α).GivesUp) (s' : State) :
    (.stopped why s' : Outcome β).GivesUp := by
  cases why <;> exact h

class SameGrammar (setup setup' : Setup) : Prop where
  table : setup.table = setup'.table
  file : setup.file = setup'.file

instance (setup : Setup) : SameGrammar setup setup := ⟨rfl, rfl⟩

instance (file : String) (options options' : Options) :
    SameGrammar (.standard file options) (.standard file options') := ⟨rfl, rfl⟩

structure MoreRoom (setup setup' : Setup) (s s' : State) : Prop where
  same : s' = { s with depth := s'.depth }
  room : setup.maxDepth + s'.depth ≤ setup'.maxDepth + s.depth

namespace MoreRoom

variable {setup setup' : Setup} {s s' : State}

theorem current (h : MoreRoom setup setup' s s') : s'.current = s.current := by rw [h.same]

theorem ahead (h : MoreRoom setup setup' s s') : s'.ahead = s.ahead := by rw [h.same]

theorem nodes (h : MoreRoom setup setup' s s') : s'.nodes = s.nodes := by rw [h.same]

theorem remaining (h : MoreRoom setup setup' s s') : s'.remaining = s.remaining := by
  rw [State.remaining, State.remaining, h.ahead]

theorem advance (h : MoreRoom setup setup' s s') :
    MoreRoom setup setup' s.advance s'.advance := by
  obtain ⟨current, ahead, nodes, depth, lastStop⟩ := s
  obtain ⟨hs, hr⟩ := h
  generalize s'.depth = depth' at hs hr
  subst hs
  cases ahead with
  | nil => exact ⟨rfl, hr⟩
  | cons next ahead =>
    cases hk : current.kind != .eof <;> simp only [State.advance, State.hasTokens, State.kind, hk]
    · exact ⟨rfl, hr⟩
    · exact ⟨rfl, hr⟩

theorem push (node : Node) (h : MoreRoom setup setup' s s') :
    MoreRoom setup setup' (s.push node) (s'.push node) := by
  obtain ⟨hs, hr⟩ := h
  generalize s'.depth = depth' at hs hr
  subst hs
  exact ⟨rfl, hr⟩

theorem deeper (h : MoreRoom setup setup' s s') : MoreRoom setup setup' s.deeper s'.deeper := by
  obtain ⟨hs, hr⟩ := h
  generalize s'.depth = depth' at hs hr
  subst hs
  refine ⟨rfl, ?_⟩
  simp only [State.deeper]
  omega

theorem leave (h : MoreRoom setup setup' s s') (hd : 0 < s'.depth) :
    MoreRoom setup setup' s.leave s'.leave := by
  obtain ⟨hs, hr⟩ := h
  generalize s'.depth = depth' at hs hr hd
  subst hs
  refine ⟨rfl, ?_⟩
  simp only [State.leave]
  omega

end MoreRoom

inductive Outcome.Refines (setup setup' : Setup) : Outcome α → Outcome α → Prop
  | givesUp {outcome outcome' : Outcome α} (h : outcome.GivesUp) :
      Outcome.Refines setup setup' outcome outcome'
  | done {value : α} {s s' : State} (h : MoreRoom setup setup' s s') :
      Outcome.Refines setup setup' (.done value s) (.done value s')
  | error {error : Error} {s s' : State} (h : MoreRoom setup setup' s s') :
      Outcome.Refines setup setup' (.stopped (.error error) s) (.stopped (.error error) s')

theorem Outcome.Refines.givesUp_of {setup setup' : Setup} {outcome outcome' : Outcome α}
    (h : outcome.Refines setup setup' outcome') (h' : outcome'.GivesUp) : outcome.GivesUp := by
  cases h with
  | givesUp h => exact h
  | done => exact h'
  | error => exact h'

/-- With more room the second step does what the first has done, unless that gave up. -/
class Refines (setup setup' : Setup) (step step' : Parse α) : Prop where
  outcome {s s' : State} (hs : MoreRoom setup setup' s s') :
    (step setup s).Refines setup setup' (step' setup' s')

theorem refines {setup setup' : Setup} (step step' : Parse α) [h : Refines setup setup' step step']
    {s s' : State} (hs : MoreRoom setup setup' s s') :
    (step setup s).Refines setup setup' (step' setup' s') := h.outcome hs

/-! ## Steps -/

section
variable {setup setup' : Setup} {step step' : Parse α}

theorem bind_givesUp {next : α → Parse β} {s : State} (h : (step setup s).GivesUp) :
    ((step >>= next) setup s).GivesUp := by
  change (Parse.bind step next setup s).GivesUp
  unfold Parse.bind
  cases ho : step setup s with
  | done a s' =>
    rw [ho] at h
    exact h.elim
  | stopped why s' =>
    rw [ho] at h
    exact h.stopped s'

theorem bind_refines {next next' : α → Parse β} {s s' : State}
    (h : (step setup s).Refines setup setup' (step' setup' s'))
    (hn : ∀ a, Refines setup setup' (next a) (next' a)) :
    ((step >>= next) setup s).Refines setup setup' ((step' >>= next') setup' s') := by
  change (Parse.bind step next setup s).Refines setup setup' (Parse.bind step' next' setup' s')
  unfold Parse.bind
  generalize step setup s = outcome, step' setup' s' = outcome' at h
  cases h with
  | @givesUp outcome _ h =>
    cases outcome with
    | done => exact h.elim
    | stopped => exact .givesUp (h.stopped _)
  | done h => exact (hn _).outcome h
  | error h => exact .error h

theorem refines_bind {next next' : α → Parse β} (h : Refines setup setup' step step')
    (hn : ∀ a, Refines setup setup' (next a) (next' a)) :
    Refines setup setup' (step >>= next) (step' >>= next') :=
  ⟨fun hs => bind_refines (h.outcome hs) hn⟩

instance {next next' : α → Parse β} [h : Refines setup setup' step step']
    [hn : ∀ a, Refines setup setup' (next a) (next' a)] :
    Refines setup setup' (step >>= next) (step' >>= next') := refines_bind h hn

theorem refines_look {f : State → α}
    (h : ∀ (s : State) (depth : Nat), f { s with depth } = f s) :
    Refines setup setup' (look f) (look f) where
  outcome {s s'} hs := by
    have hf : f s' = f s := by
      rw [hs.same]
      exact h s s'.depth
    unfold look
    rw [hf]
    exact .done hs

theorem refines_given {f : Setup → α} (h : f setup = f setup') :
    Refines setup setup' (given f) (given f) where
  outcome hs := by
    unfold given
    rw [h]
    exact .done hs

instance (value : α) : Refines setup setup' (pure value) (pure value) := ⟨.done⟩

instance (error : Error) : Refines setup setup' (refuse error : Parse α) (refuse error) := ⟨.error⟩

theorem refines_exhausted : Refines setup setup' (stop .exhausted) step' :=
  ⟨fun _ => .givesUp trivial⟩

instance (f : α → β) [h : Refines setup setup' step step'] :
    Refines setup setup' (f <$> step) (f <$> step') :=
  refines_bind h fun a => inferInstanceAs (Refines setup setup' (pure (f a)) (pure (f a)))

instance {c : Prop} [Decidable c] {other other' : Parse α} [Refines setup setup' step step']
    [Refines setup setup' other other'] :
    Refines setup setup' (if c then step else other) (if c then step' else other') := by
  split <;> infer_instance

instance : Refines setup setup' advance advance where
  outcome hs := by
    unfold advance
    rw [hs.current]
    exact .done hs.advance

instance (shape : Shape) (span : Span) :
    Refines setup setup' (push shape span) (push shape span) where
  outcome hs := by
    unfold push
    rw [hs.nodes]
    exact .done (hs.push _)

instance (id : NodeId) : Refines setup setup' (node id) (node id) where
  outcome {s s'} hs := by
    unfold node
    rw [hs.nodes]
    split
    · exact .done hs
    · exact .givesUp trivial

theorem inside_givesUp {delimiter : Char} {construct : String} {opening : Span} {s : State}
    (h : (step setup s).GivesUp) : (inside delimiter construct opening step setup s).GivesUp := by
  unfold inside mapError
  split
  · rename_i error s' ho
    rw [ho] at h
    exact (error.classify_inside _ _ _).trans h
  · exact h

instance (delimiter : Char) (construct : String) (opening : Span)
    [h : Refines setup setup' step step'] :
    Refines setup setup' (inside delimiter construct opening step)
      (inside delimiter construct opening step') where
  outcome {s s'} hs := by
    have ho := h.outcome hs
    by_cases hg : (step setup s).GivesUp
    · exact .givesUp (inside_givesUp hg)
    · unfold inside mapError
      generalize step setup s = outcome, step' setup' s' = outcome' at ho hg
      cases ho with
      | givesUp h => exact absurd h hg
      | done h => exact .done h
      | error h => exact .error h

theorem refines_iterate {turn turn' : α → Parse (Turn α β)}
    (h : ∀ a, Refines setup setup' (turn a) (turn' a)) (turns : Nat) (a : α) :
    Refines setup setup' (iterate turn turns a) (iterate turn' turns a) := by
  induction turns generalizing a with
  | zero => exact refines_exhausted
  | succ turns ih =>
    refine refines_bind (h a) fun result => ?_
    cases result with
    | again a => exact ih a
    | finish b => exact inferInstanceAs (Refines _ _ (pure b) (pure b))

theorem refines_loop {turn turn' : α → Parse (Turn α β)}
    (h : ∀ a, Refines setup setup' (turn a) (turn' a)) (a : α) :
    Refines setup setup' (loop turn a) (loop turn' a) :=
  refines_bind (refines_look fun _ _ => rfl) fun turns => refines_iterate h (turns + 1) a

instance {step step' : Parse (Option (α × Bool))} [h : Refines setup setup' step step'] :
    Refines setup setup' (collect step) (collect step') := by
  refine refines_loop (fun items => refines_bind h fun item => ?_) []
  split <;> infer_instance

/-- Where there is less room, the limit is met first. -/
theorem refines_nested (hk : Keeps step') (h : Refines setup setup' step step') :
    Refines setup setup' (nested step) (nested step') where
  outcome {s s'} hs := by
    rw [nested_apply, nested_apply]
    by_cases hd : s.depth < setup.maxDepth
    · have hd' : s'.depth < setup'.maxDepth := by
        have := hs.room
        omega
      have ho := h.outcome hs.deeper
      have hk := keeps step' setup' s'.deeper
      rw [if_pos hd, if_pos hd']
      generalize step setup s.deeper = outcome, step' setup' s'.deeper = outcome' at ho hk
      cases ho with
      | @givesUp outcome _ h =>
        refine .givesUp ?_
        cases outcome with
        | done => exact h
        | stopped why => cases why <;> exact h
      | done h => exact .done (h.leave (hk.depth ▸ Nat.succ_pos _))
      | error h => exact .error (h.leave (hk.depth ▸ Nat.succ_pos _))
    · rw [if_neg hd]
      exact .givesUp rfl

instance [hk : Keeps step'] [h : Refines setup setup' step step'] :
    Refines setup setup' (nested step) (nested step') := refines_nested hk h

end

/-! ## Tokens, errors and nodes -/

section
variable {setup setup' : Setup}

instance : Refines setup setup' (look State.current) (look State.current) :=
  refines_look fun _ _ => rfl

instance : Refines setup setup' (look State.kind) (look State.kind) :=
  refines_look fun _ _ => rfl

instance (n : Nat) : Refines setup setup' (look (·.peek n)) (look (·.peek n)) :=
  refines_look fun _ _ => rfl

instance : Refines setup setup' (look (·.current.span)) (look (·.current.span)) :=
  refines_look fun _ _ => rfl

instance : Refines setup setup' (look (·.current.span.start)) (look (·.current.span.start)) :=
  refines_look fun _ _ => rfl

instance (start : Nat) : Refines setup setup' (look (·.spanFrom start)) (look (·.spanFrom start)) :=
  refines_look fun _ _ => rfl

instance (word : String) :
    Refines setup setup' (look (·.current.isWord word)) (look (·.current.isWord word)) :=
  refines_look fun _ _ => rfl

instance (kind : Token.Kind) : Refines setup setup' (isAt kind) (isAt kind) :=
  refines_look fun _ _ => rfl

instance [h : SameGrammar setup setup'] :
    Refines setup setup' (given Setup.table) (given Setup.table) := refines_given h.table

instance [h : SameGrammar setup setup'] (cause : Cause) (span : Span) (expected : List Expected) :
    Refines setup setup' (errorAt cause span expected) (errorAt cause span expected) :=
  refines_given (by rw [h.file])

instance {sign sign' : Parse Bool} {step step' : Parse α} [Refines setup setup' sign sign']
    [Refines setup setup' step step'] :
    Refines setup setup' (optionally sign step) (optionally sign' step') := by
  unfold optionally; infer_instance

instance (kind : Token.Kind) : Refines setup setup' (eat kind) (eat kind) := by
  unfold eat; infer_instance

instance (word : String) : Refines setup setup' (eatWord word) (eatWord word) := by
  unfold eatWord; infer_instance

instance (start : Nat) (shape : Shape) :
    Refines setup setup' (pushFrom start shape) (pushFrom start shape) := by
  unfold pushFrom; infer_instance

instance (id : NodeId) : Refines setup setup' (spanOf id) (spanOf id) := by
  unfold spanOf; infer_instance

variable [SameGrammar setup setup']

instance (expected : List Expected) (note : Option String) :
    Refines setup setup' (unexpected expected note) (unexpected expected note) := by
  unfold unexpected; infer_instance

instance (expected : Expected) :
    Refines setup setup' (misplaced expected) (misplaced expected) := by
  unfold misplaced; infer_instance

instance (kind : Token.Kind) {error error' : Parse Error} [Refines setup setup' error error'] :
    Refines setup setup' (expectOr kind error) (expectOr kind error') := by
  unfold expectOr; infer_instance

instance (kind : Token.Kind) : Refines setup setup' (expect kind) (expect kind) := by
  unfold expect; infer_instance

/-! ## Names and lists -/

instance : Refines setup setup' name name := by unfold name; infer_instance

instance : Refines setup setup' path path := by unfold path; infer_instance

instance (close : Token.Kind) {element element' : Parse NodeId}
    [Refines setup setup' element element'] :
    Refines setup setup' (delimited close element) (delimited close element') := by
  unfold delimited; infer_instance

instance {item item' : Parse NodeId} [Refines setup setup' item item'] :
    Refines setup setup' (bracedItems item) (bracedItems item') := by
  have : Refines setup setup' (look fun s => s.hasTokens && s.kind != .closeCurly)
      (look fun s => s.hasTokens && s.kind != .closeCurly) := refines_look fun _ _ => rfl
  unfold bracedItems; infer_instance

instance : Refines setup setup' header header := by unfold header; infer_instance

end

end Smaug.Parse
