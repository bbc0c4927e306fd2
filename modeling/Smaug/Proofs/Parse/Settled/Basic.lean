import Mathlib
import Smaug.Proofs.Parse.Turns

/-! # Steps that settle

A step settles if it yields a value or raises an error at the token it has come to.  Nothing else
happens to the rules of the language: every node they ask for is there, and their calls nest no
deeper than the tokens left allow.
-/

namespace Smaug

/-- An error is about a token: its span is that of the token, unless the input ended too soon. -/
def Error.RaisedAt (error : Error) (token : Token) : Prop :=
  match error.cause with
  | .unexpectedEnd | .unclosedDelimiter .. => token.kind = .eof
  | _ => error.span = token.span

theorem Error.RaisedAt.inside {error : Error} {token : Token} (h : error.RaisedAt token)
    (delimiter : Char) (construct : String) (opening : Span) :
    (error.inside delimiter construct opening).RaisedAt token := by
  unfold Error.inside
  split
  · rename_i he
    have hc : error.cause = .unexpectedEnd := by simpa [isAtEnd] using he
    simpa [RaisedAt, hc] using h
  · exact h

namespace Parse

open Grammar

/-- A step has yielded a value, or raised an error at the token it has come to. -/
def Outcome.IsSettled : Outcome α → Prop
  | .done .. => True
  | .stopped (.error error) s => error.RaisedAt s.current
  | .stopped .. => False

theorem Outcome.IsSettled.stopped {why : Stop} {s : State}
    (h : (.stopped why s : Outcome α).IsSettled) : (.stopped why s : Outcome β).IsSettled := by
  cases why <;> exact h

/-- At most `room` tokens are left, and the last of them ends the input. -/
structure State.Within (room : Nat) (s : State) : Prop where
  ended : s.Ended
  room : s.remaining ≤ room

theorem State.Within.kept {room : Nat} {s s' : State} (hs : s.Within room) (h : Kept s s') :
    s'.Within room where
  ended := hs.ended.grow h.toGrown
  room := h.remaining_le.trans hs.room

theorem State.Within.passed {room : Nat} {s s' : State} (hs : s.Within (room + 1)) (h : Kept s s')
    (hl : s'.remaining < s.remaining) : s'.Within room where
  ended := hs.ended.grow h.toGrown
  room := by
    have hr := hs.room
    omega

theorem State.Within.deeper {room : Nat} {s : State} (hs : s.Within room) :
    s.deeper.Within room := ⟨hs.ended, hs.room⟩

class Settles (room : Nat) (step : Parse α) : Prop where
  settles {setup : Setup} {s : State} (ht : setup.table = .standard) (hs : s.Within room) :
    (step setup s).IsSettled

theorem settles (room : Nat) (step : Parse α) [h : Settles room step] {setup : Setup} {s : State}
    (ht : setup.table = .standard) (hs : s.Within room) : (step setup s).IsSettled :=
  h.settles ht hs

/-! ## Steps -/

section
variable {room : Nat} {step : Parse α} {setup : Setup} {s : State}

theorem bind_isSettled {next : α → Parse β} (h : (step setup s).IsSettled)
    (hn : ∀ a s', step setup s = .done a s' → (next a setup s').IsSettled) :
    ((step >>= next) setup s).IsSettled := by
  change (Parse.bind step next setup s).IsSettled
  unfold Parse.bind
  cases ho : step setup s with
  | done a s' => exact hn a s' ho
  | stopped why s' =>
    rw [ho] at h
    exact h.stopped

/-- What follows a step that passes a token has less room. -/
theorem passing_bind_isSettled [Keeps step] [Passes step] {next : α → Parse β}
    [hn : ∀ a, Settles room (next a)] (ht : setup.table = .standard)
    (hs : s.Within (room + 1)) (h : (step setup s).IsSettled) :
    ((step >>= next) setup s).IsSettled :=
  bind_isSettled h fun a _ ho =>
    (hn a).settles ht (hs.passed (kept_of_done ho) (passes step ht hs.ended ho))

theorem advance_bind_isSettled {next : Token → Parse β} [hn : ∀ token, Settles room (next token)]
    (ht : setup.table = .standard) (hs : s.Within (room + 1)) (hk : s.hasTokens) :
    ((advance >>= next) setup s).IsSettled :=
  (hn s.current).settles ht
    (hs.passed (.advance s) (hs.ended.remaining_advance hk))

theorem settles_bind (step : Parse α) [Keeps step] [hs : Settles room step]
    {next : α → Parse β} (hn : ∀ a, Settles room (next a)) : Settles room (step >>= next) where
  settles ht hw := bind_isSettled (hs.settles ht hw) fun a _ ho =>
    (hn a).settles ht (hw.kept (kept_of_done ho))

instance {next : α → Parse β} [Keeps step] [Settles room step]
    [hn : ∀ a, Settles room (next a)] : Settles room (step >>= next) := settles_bind step hn

instance (priority := high) {next : α → Parse β} [Keeps step] [Passes step]
    [hs : Settles (room + 1) step] [∀ a, Settles room (next a)] :
    Settles (room + 1) (step >>= next) where
  settles ht hw := passing_bind_isSettled ht hw (hs.settles ht hw)

instance (value : α) : Settles room (pure value) := ⟨fun _ _ => trivial⟩

instance (f : State → α) : Settles room (look f) := ⟨fun _ _ => trivial⟩

instance : Settles room advance := ⟨fun _ _ => trivial⟩

instance (shape : Shape) (span : Span) : Settles room (push shape span) := ⟨fun _ _ => trivial⟩

instance (f : α → β) [Keeps step] [Settles room step] : Settles room (f <$> step) :=
  inferInstanceAs (Settles room (step >>= fun value => pure (f value)))

instance {c : Prop} [Decidable c] {other : Parse α} [Settles room step] [Settles room other] :
    Settles room (if c then step else other) := by
  split <;> infer_instance

instance (delimiter : Char) (construct : String) (opening : Span) [h : Settles room step] :
    Settles room (inside delimiter construct opening step) where
  settles {setup s} ht hs := by
    have h := h.settles ht hs
    unfold inside mapError
    split
    · rename_i error s' ho
      rw [ho] at h
      exact h.inside _ _ _
    · exact h

theorem nested_isSettled (h : (step setup s.deeper).IsSettled) :
    (nested step setup s).IsSettled := by
  rw [nested_apply]
  split
  · split
    · trivial
    · rename_i ho
      rw [ho] at h
      exact h
    · rename_i why s' hne ho
      rw [ho] at h
      cases why with
      | error error => exact absurd rfl (hne error)
      | missingNode => exact h
      | exhausted => exact h
  · exact rfl

end

/-! ## Tokens, errors and nodes -/

section
variable {room : Nat}

instance (kind : Token.Kind) : Settles room (isAt kind) :=
  inferInstanceAs (Settles room (look _))

instance (kind : Token.Kind) : Settles room (eat kind) := by unfold eat; infer_instance

instance (word : String) : Settles room (eatWord word) := by unfold eatWord; infer_instance

instance {sign : Parse Bool} {step : Parse α} [Keeps sign] [Keeps step] [Settles room sign]
    [Settles room step] : Settles room (optionally sign step) := by
  unfold optionally; infer_instance

instance (expected : List Expected) (note : Option String) :
    Settles room (unexpected expected note >>= fun error => refuse error : Parse α) where
  settles {setup s} _ _ := by
    change Error.RaisedAt { cause := _, span := s.current.span, expected, file := _ } s.current
    by_cases hk : s.current.kind = .eof <;> simp [Error.RaisedAt, hk]

instance (expected : Expected) :
    Settles room (misplaced expected >>= fun error => refuse error : Parse α) where
  settles {setup s} ht hs := by
    unfold misplaced
    change (Parse.bind (Parse.bind (look State.current) _) _ setup s).IsSettled
    cases hr : s.current.kind.isReserved with
    | true =>
      simp [Parse.bind, look, hr, errorAt, given, refuse, stop, Outcome.IsSettled, Error.RaisedAt]
    | false =>
      have hu : Settles room (unexpected [expected] >>= fun error => refuse error : Parse α) :=
        inferInstance
      simp only [Parse.bind, look, hr, Bool.false_eq_true, if_false]
      exact hu.settles ht hs

instance (kind : Token.Kind) {error : Parse Error}
    [Settles room (error >>= fun error => refuse error : Parse Token)] :
    Settles room (expectOr kind error) := by
  unfold expectOr; infer_instance

instance (kind : Token.Kind) : Settles room (expect kind) := by unfold expect; infer_instance

instance (start : Nat) (shape : Shape) : Settles room (pushFrom start shape) := by
  unfold pushFrom; infer_instance

/-! ## Names and lists -/

instance : Settles room name := by unfold name; infer_instance

theorem iterate_isSettled {step : Parse (Option (α × Bool))} [Keeps step] [hs : Settles room step]
    [hp : PassesItem step] {setup : Setup} (ht : setup.table = .standard) {turns : Nat} {s : State}
    (hw : s.Within room) (hl : s.remaining < turns) (before : List α) :
    (iterate (collectTurn step) turns before setup s).IsSettled := by
  induction turns generalizing s before with
  | zero => exact absurd hl (Nat.not_lt_zero _)
  | succ turns ih =>
    refine bind_isSettled (bind_isSettled (hs.settles ht hw) fun item _ _ => ?_)
      fun turn s' ho => ?_
    · match item with
      | none => trivial
      | some (_, true) => trivial
      | some (_, false) => trivial
    · obtain ⟨item, s₁, hs₁, ho⟩ := bind_done.1 ho
      match item with
      | none =>
        obtain ⟨rfl, rfl⟩ := pure_done.1 ho
        trivial
      | some (_, false) =>
        obtain ⟨rfl, rfl⟩ := pure_done.1 ho
        trivial
      | some (item, true) =>
        obtain ⟨rfl, rfl⟩ := pure_done.1 ho
        have := hp.passes ht hw.ended hs₁
        exact ih (hw.kept (kept_of_done hs₁)) (by omega) _

instance {step : Parse (Option (α × Bool))} [Keeps step] [Settles room step] [PassesItem step] :
    Settles room (collect step) where
  settles ht hs := iterate_isSettled ht hs (Nat.lt_succ_self _) []

end
end Parse
end Smaug
