import Mathlib
import Smaug.Parse.Session
import Smaug.Proofs.Parse.Lossless
import Smaug.Proofs.Parse.Moments

/-! # Sessions stay in bounds

Whatever a caller asks of a parse, in whatever order, the parse stays at a token of its input: at
the first that ends it or before, and no deeper than the limit.  Marks are what carries this from
one command to the next.  A mark that is taken in bounds stays so, since the tokens never change;
so it does no harm to go back to it, whatever has happened since.
-/

namespace Smaug.Parse

structure Mark.InBounds (tokens : List Token) (maxDepth : Nat) (mark : Mark) : Prop where
  passed : ∃ passed, State.ended tokens = passed ++ mark.current :: mark.ahead ∧
    ∀ token ∈ passed, token.kind ≠ .eof
  depth : mark.depth ≤ maxDepth

namespace Mark.InBounds

variable {tokens : List Token} {maxDepth : Nat} {s s' : State}

theorem start (tokens : List Token) (maxDepth : Nat) :
    (State.start tokens).mark.InBounds tokens maxDepth where
  passed := ⟨[], (State.start_tokens tokens).symm, by simp⟩
  depth := by simp [State.mark, State.start_depth]

theorem grown (h : s.mark.InBounds tokens maxDepth) (hg : Grown s s')
    (hd : s'.depth ≤ maxDepth) : s'.mark.InBounds tokens maxDepth where
  passed := by
    obtain ⟨before, hbefore, heof⟩ := h.passed
    obtain ⟨passed, hpassed, heof', -⟩ := hg.tokens
    refine ⟨before ++ passed, ?_, fun token ht => ?_⟩
    · rw [hbefore, List.append_assoc]
      exact congrArg (before ++ ·) hpassed
    · rcases List.mem_append.1 ht with ht | ht
      · exact heof token ht
      · exact heof' token ht
  depth := hd

theorem kept (h : s.mark.InBounds tokens maxDepth) (hk : Kept s s') :
    s'.mark.InBounds tokens maxDepth :=
  h.grown hk.toGrown (hk.depth.trans_le h.depth)

/-- Going back to a mark leads in bounds, wherever it starts from. -/
theorem reset {mark : Mark} (h : mark.InBounds tokens maxDepth) (s : State) :
    (s.reset mark).mark.InBounds tokens maxDepth := ⟨h.passed, h.depth⟩

theorem leave (h : s.mark.InBounds tokens maxDepth) : s.leave.mark.InBounds tokens maxDepth where
  passed := h.passed
  depth := (Nat.sub_le _ _).trans h.depth

/-- However a step ends that keeps what it finds, it ends in bounds. -/
theorem step {step : Parse α} [Keeps step] {setup : Setup}
    (h : s.mark.InBounds tokens setup.maxDepth) :
    (step setup s).state.mark.InBounds tokens setup.maxDepth := by
  have hs := keeps step setup s
  cases ho : step setup s with
  | done value s' =>
    rw [ho] at hs
    exact h.kept hs
  | stopped why s' =>
    rw [ho] at hs
    exact h.grown hs.grown (hs.depth_le.trans (Nat.max_le.2 ⟨h.depth, Nat.le_refl _⟩))

theorem enter {setup : Setup} (h : s.mark.InBounds tokens setup.maxDepth) :
    (enter setup s).state.mark.InBounds tokens setup.maxDepth := by
  unfold Parse.enter
  split
  · exact ⟨h.passed, ‹s.depth < setup.maxDepth›⟩
  · exact h

end Mark.InBounds

namespace Session

/-- The session stands in bounds, and every mark it can go back to is in bounds. -/
structure InBounds (tokens : List Token) (maxDepth : Nat) (session : Session) : Prop where
  limit : session.setup.maxDepth = maxDepth
  total : session.total = (State.ended tokens).length
  here : session.state.mark.InBounds tokens maxDepth
  marks : ∀ entry ∈ session.marks, entry.2.InBounds tokens maxDepth

variable {tokens : List Token} {maxDepth : Nat} {session : Session}

theorem step_snd (session : Session) (answer : α → Answer) (step : Parse α) :
    (session.step answer step).2 =
      { session with state := (step session.setup session.state).state } := by
  unfold Session.step
  cases ho : step session.setup session.state with
  | done value s => simp only [ho, Outcome.state]
  | stopped why s => cases why <;> simp only [ho, Outcome.state]

theorem inBounds_start (tokens : List Token) (setup : Setup) :
    (start tokens setup).InBounds tokens setup.maxDepth where
  limit := rfl
  total := congrArg List.length (State.start_tokens tokens)
  here := .start tokens setup.maxDepth
  marks := by simp [start]

/-- Commands that do no more than run a step end where the step ends. -/
theorem InBounds.step_snd (h : session.InBounds tokens maxDepth) (answer : α → Answer)
    (step : Parse α)
    (hs : (step session.setup session.state).state.mark.InBounds tokens session.setup.maxDepth) :
    (session.step answer step).2.InBounds tokens maxDepth := by
  rw [Session.step_snd]
  exact ⟨h.limit, h.total, h.limit ▸ hs, h.marks⟩

theorem InBounds.keeps (h : session.InBounds tokens maxDepth) (answer : α → Answer)
    (step : Parse α) [Keeps step] : (session.step answer step).2.InBounds tokens maxDepth :=
  h.step_snd answer step (.step (h.limit ▸ h.here))

theorem InBounds.changeTable (h : session.InBounds tokens maxDepth) (f : Table → Table) :
    (session.changeTable f).2.InBounds tokens maxDepth := ⟨h.limit, h.total, h.here, h.marks⟩

/-- Every command leads in bounds from there. -/
theorem InBounds.perform (h : session.InBounds tokens maxDepth) (command : Command) :
    (session.perform command).2.InBounds tokens maxDepth := by
  cases command with
  | peek count =>
    rw [Session.perform]
    split
    · exact h.keeps _ _
    · exact h
  | mark label =>
    refine ⟨h.limit, h.total, h.here, fun entry he => ?_⟩
    rcases List.mem_cons.1 he with rfl | he
    · exact h.here
    · exact h.marks entry he
  | reset label =>
    rw [Session.perform]
    split
    · rename_i mark hm
      obtain ⟨before, after, hmarks, -⟩ := List.lookup_eq_some_iff.1 hm
      have hmark : mark.InBounds tokens maxDepth := h.marks (label, mark) (by simp [hmarks])
      exact h.step_snd _ _ (h.limit ▸ hmark.reset session.state)
    · exact h
  | enter => exact h.step_snd _ _ (.enter (h.limit ▸ h.here))
  | leave => exact h.step_snd _ _ (.leave (h.limit ▸ h.here))
  | lookUp => exact h
  | putStatement | putOperand | putSuffix | putPattern => exact h.changeTable _
  | _ => exact h.keeps _ _

/-- What a caller does with a session: it has a command performed, or adds a node of any shape. -/
inductive Request where
  | perform (command : Command)
  | add (node : Node)

def serve (session : Session) : Request → Session
  | .perform command => (session.perform command).2
  | .add node => { session with state := session.state.push node }

def serveAll (session : Session) (requests : List Request) : Session := requests.foldl serve session

theorem InBounds.serve (h : session.InBounds tokens maxDepth) (request : Request) :
    (session.serve request).InBounds tokens maxDepth := by
  cases request with
  | perform command => exact h.perform command
  | add node => exact ⟨h.limit, h.total, h.here.kept (.push _ node), h.marks⟩

theorem InBounds.serveAll (h : session.InBounds tokens maxDepth) (requests : List Request) :
    (session.serveAll requests).InBounds tokens maxDepth := by
  induction requests generalizing session with
  | nil => exact h
  | cons request requests ih => exact ih (h.serve request)

/-- In bounds, the position counts the tokens passed. -/
theorem InBounds.position (h : session.InBounds tokens maxDepth) :
    ∃ passed, State.ended tokens = passed ++ session.state.tokens ∧
      (∀ token ∈ passed, token.kind ≠ .eof) ∧ session.position = passed.length := by
  obtain ⟨passed, hp, heof⟩ := h.here.passed
  refine ⟨passed, hp, heof, ?_⟩
  rw [Session.position, h.total, hp, List.length_append]
  exact Nat.add_sub_cancel _ _

/-- Whatever a caller has asked for, the position is at the first token that ends the input or
before, the current token is the one there, none that ends the input has been passed, and the limit
on nesting is kept. -/
theorem serveAll_inBounds (tokens : List Token) (setup : Setup) (requests : List Request) :
    let all := State.ended tokens
    let stop := all.findIdx (·.kind == .eof)
    let session := (start tokens setup).serveAll requests
    stop < all.length ∧ session.position ≤ stop ∧
      all[session.position]? = some session.state.current ∧
      session.state.tokens = all.drop session.position ∧
      (∀ token ∈ all.take session.position, token.kind ≠ .eof) ∧
      session.state.depth ≤ setup.maxDepth := by
  intro all stop session
  have h : session.InBounds tokens setup.maxDepth := (inBounds_start tokens setup).serveAll requests
  obtain ⟨passed, hpassed, heof, hposition⟩ := h.position
  have htokens : session.state.tokens = all.drop session.position := by
    rw [hposition, show all = _ from hpassed, List.drop_left]
  have htake : all.take session.position = passed := by
    rw [hposition, show all = _ from hpassed, List.take_left]
  have hcurrent : all[session.position]? = some session.state.current := by
    rw [hposition, show all = _ from hpassed, List.getElem?_append_right (Nat.le_refl _),
      Nat.sub_self]
    rfl
  have hstop : stop < all.length := by
    obtain ⟨last, hlast, hkind⟩ := State.start_ended tokens
    rw [State.start_tokens] at hlast
    exact List.findIdx_lt_length_of_exists ⟨last, List.mem_of_getLast? hlast, by simp [hkind]⟩
  refine ⟨hstop, ?_, hcurrent, htokens, by rwa [htake], h.here.depth⟩
  -- The token at `stop` ends the input, so it is none of those passed.
  by_contra hlt
  have hmem : all[stop] ∈ passed := by
    rw [← htake]
    exact List.mem_take_iff_getElem.2 ⟨stop, by omega, rfl⟩
  exact heof _ hmem (by simpa using List.findIdx_getElem (w := hstop))

/-- A token that ends the input in the middle is where the parse stays. -/
example :
    let tokens : List Token :=
      [⟨.identifier, "a", ⟨0, 1⟩⟩, .endAt (.emptyAt 1), ⟨.identifier, "b", ⟨2, 3⟩⟩]
    let session := (start tokens (.standard "a.sm" {})).serveAll
      [.perform .advance, .perform .advance, .perform (.eat .eof)]
    session.position = 1 ∧ session.state.current = .endAt (.emptyAt 1) := by decide

end Session
end Smaug.Parse
