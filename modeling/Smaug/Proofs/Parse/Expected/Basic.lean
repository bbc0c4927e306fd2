import Mathlib
import Smaug.Proofs.Parse.Expected.Wants
import Smaug.Proofs.Parse.Resumed

/-! # Steps on two inputs that part

Two inputs have the same tokens up to a place, and there a token of the one is replaced in the
other by a token that meets an expected item.  Two parses go through the same tokens the same way,
until one of them is led by what stands at the place.  What matters is an error that the first
raises there, with the item among those expected: then the second has passed the new token.  So it
is enough to follow both until the second has passed the token, or the first can no longer end in
such an error.
-/

namespace Smaug

theorem Error.expected_inside (error : Error) (delimiter : Char) (construct : String)
    (opening : Span) : (error.inside delimiter construct opening).expected = error.expected := by
  unfold Error.inside
  split <;> rfl

namespace Parse

/-- Where two inputs part: `found` stands there in the one, and `put`, which meets `item`, in the
other. -/
structure Fork where
  found : Token
  rest : List Token
  put : Token
  more : List Token
  item : Expected
  met : item.Met put
  /-- The other input may only be longer. -/
  room : rest.length ≤ more.length

/-- Both stand at the same of the tokens before the place, or at the place. -/
structure Forked (f : Fork) (s s' : State) : Prop where
  ended : s.Ended
  ended' : s'.Ended
  tokens : ∃ before : List Token, s.tokens = before ++ f.found :: f.rest ∧
    s'.tokens = before ++ f.put :: f.more
  nodes : s'.nodes = s.nodes
  depth : s'.depth = s.depth
  lastStop : s'.lastStop = s.lastStop

namespace Fork

def At (f : Fork) (s : State) : Prop := s.remaining = f.rest.length + 1

def Before (f : Fork) (s : State) : Prop := f.rest.length + 1 < s.remaining

/-- A statement list in colon form reaches up to the place, where a brace or the end of the input
has ended it, and the item would neither end it nor go on with it. -/
structure EndsList (f : Fork) (s : State) : Prop where
  place : f.At s
  found : f.found.kind = .closeCurly ∨ f.found.kind = .eof
  statement : f.item ≠ .statement
  closeCurly : f.item ≠ .token .closeCurly
  list : ∃ ids start, ⟨.transparentList .colon ids, s.spanFrom start⟩ ∈ s.nodes.toList

end Fork

theorem Grown.eq_of_remaining {s s' : State} (h : Grown s s') (hr : s'.remaining = s.remaining) :
    s'.tokens = s.tokens ∧ s'.lastStop = s.lastStop := by
  obtain ⟨passed, ht, -, hl⟩ := h.tokens
  have hlen := congrArg List.length ht
  rw [List.length_append, State.length_tokens, State.length_tokens, hr] at hlen
  obtain rfl : passed = [] := List.length_eq_zero_iff.1 (by omega)
  exact ⟨ht.symm, hl⟩

theorem Fork.EndsList.grow {f : Fork} {s s' : State} (h : f.EndsList s) (hg : Grown s s')
    (hr : s'.remaining = s.remaining) : f.EndsList s' where
  place := hr.trans h.place
  found := h.found
  statement := h.statement
  closeCurly := h.closeCurly
  list := by
    obtain ⟨ids, start, hm⟩ := h.list
    refine ⟨ids, start, ?_⟩
    rw [State.spanFrom, (hg.eq_of_remaining hr).2]
    exact hg.nodes.subset hm

namespace Forked

variable {f : Fork} {s s' : State}

theorem remaining (h : Forked f s s') :
    s.remaining + f.more.length = s'.remaining + f.rest.length := by
  obtain ⟨before, hs, hs'⟩ := h.tokens
  rw [← State.length_tokens, ← State.length_tokens, hs, hs']
  simp only [List.length_append, List.length_cons]
  omega

theorem remaining_le (h : Forked f s s') : s.remaining ≤ s'.remaining := by
  have hr := h.remaining
  have hroom := f.room
  omega

theorem cases (h : Forked f s s') : f.At s ∨ f.Before s := by
  obtain ⟨before, hs, -⟩ := h.tokens
  rw [Fork.At, Fork.Before, ← State.length_tokens, hs]
  simp only [List.length_append, List.length_cons]
  omega

theorem remaining_at (h : Forked f s s') (ha : f.At s) : s'.remaining = f.more.length + 1 := by
  have hr := h.remaining
  rw [Fork.At] at ha
  omega

/-- At the place one stands at `found` and the other at `put`. -/
theorem current_at (h : Forked f s s') (ha : f.At s) :
    s.current = f.found ∧ s'.current = f.put := by
  obtain ⟨before, hs, hs'⟩ := h.tokens
  have hlen := congrArg List.length hs
  rw [List.length_append, List.length_cons, State.length_tokens, ha] at hlen
  obtain rfl : before = [] := List.length_eq_zero_iff.1 (by omega)
  exact ⟨(List.cons_eq_cons.1 (show s.current :: s.ahead = _ from hs)).1,
    (List.cons_eq_cons.1 (show s'.current :: s'.ahead = _ from hs')).1⟩

/-- Before the place both see the same token. -/
theorem split (h : Forked f s s') (hb : f.Before s) : s'.current = s.current ∧
    ∃ before : List Token, s.ahead = before ++ f.found :: f.rest ∧
      s'.ahead = before ++ f.put :: f.more := by
  obtain ⟨before, hs, hs'⟩ := h.tokens
  cases before with
  | nil =>
    rw [Fork.Before, ← State.length_tokens, hs] at hb
    simp at hb
  | cons token before =>
    obtain ⟨hc, ha⟩ := List.cons_eq_cons.1 (show s.current :: s.ahead = _ from hs)
    obtain ⟨hc', ha'⟩ := List.cons_eq_cons.1 (show s'.current :: s'.ahead = _ from hs')
    exact ⟨hc'.trans hc.symm, before, ha, ha'⟩

theorem current (h : Forked f s s') (hb : f.Before s) : s'.current = s.current := (h.split hb).1

theorem kind (h : Forked f s s') (hb : f.Before s) : s'.kind = s.kind :=
  congrArg Token.kind (h.current hb)

theorem advance (h : Forked f s s') (hb : f.Before s) : Forked f s.advance s'.advance := by
  obtain ⟨hc, before, ha, ha'⟩ := h.split hb
  have hk : s'.hasTokens = s.hasTokens := by rw [State.hasTokens, h.kind hb]; rfl
  cases ht : s.hasTokens with
  | false =>
    have hs {s : State} (ht : s.hasTokens = false) : s.advance = s := by
      unfold State.advance
      split <;> simp [ht]
    rw [hs ht, hs (hk.trans ht)]
    exact h
  | true =>
    have hadv := h.ended.remaining_advance ht
    have hadv' := h.ended'.remaining_advance (hk.trans ht)
    rcases s.advance_cases with he | ⟨-, hs, hn, hd, hl⟩
    · rw [he] at hadv
      exact absurd hadv (Nat.lt_irrefl _)
    rcases s'.advance_cases with he | ⟨-, hs', hn', hd', hl'⟩
    · rw [he] at hadv'
      exact absurd hadv' (Nat.lt_irrefl _)
    exact {
      ended := (h.ended.advance ht).2
      ended' := (h.ended'.advance (hk.trans ht)).2
      tokens := ⟨before, (List.cons_eq_cons.1 hs).2.symm.trans ha,
        (List.cons_eq_cons.1 hs').2.symm.trans ha'⟩
      nodes := by rw [hn, hn', h.nodes]
      depth := by rw [hd, hd', h.depth]
      lastStop := by rw [hl, hl', hc] }

/-- Further before the place both also see the same next token. -/
theorem peek (h : Forked f s s') (hb : f.rest.length + 2 < s.remaining) :
    s'.peek 1 = s.peek 1 := by
  obtain ⟨before, hs, hs'⟩ := h.tokens
  have hlen := congrArg List.length hs
  rw [List.length_append, List.length_cons, State.length_tokens] at hlen
  have hi : 1 < before.length := by omega
  rw [State.peek, State.peek, show s.current :: s.ahead = _ from hs,
    show s'.current :: s'.ahead = _ from hs', List.getElem?_append_left hi,
    List.getElem?_append_left hi, List.getElem?_eq_getElem hi]
  rfl

/-- At the last token before the place, the next token is what stands there. -/
theorem peek_last (h : Forked f s s') (hb : s.remaining = f.rest.length + 2) :
    s.peek 1 = f.found.kind ∧ s'.peek 1 = f.put.kind := by
  obtain ⟨before, hs, hs'⟩ := h.tokens
  have hlen := congrArg List.length hs
  rw [List.length_append, List.length_cons, State.length_tokens] at hlen
  obtain ⟨token, rfl⟩ := List.length_eq_one_iff.1 (show before.length = 1 by omega)
  rw [State.peek, State.peek, show s.current :: s.ahead = _ from hs,
    show s'.current :: s'.ahead = _ from hs']
  exact ⟨rfl, rfl⟩

theorem push (h : Forked f s s') (node : Node) : Forked f (s.push node) (s'.push node) where
  ended := h.ended
  ended' := h.ended'
  tokens := h.tokens
  nodes := by simp [State.push, h.nodes]
  depth := h.depth
  lastStop := h.lastStop

theorem deeper (h : Forked f s s') : Forked f s.deeper s'.deeper where
  ended := h.ended
  ended' := h.ended'
  tokens := h.tokens
  nodes := h.nodes
  depth := congrArg (· + 1) h.depth
  lastStop := h.lastStop

theorem leave (h : Forked f s s') : Forked f s.leave s'.leave where
  ended := h.ended
  ended' := h.ended'
  tokens := h.tokens
  nodes := h.nodes
  depth := congrArg (· - 1) h.depth
  lastStop := h.lastStop

theorem spanFrom (h : Forked f s s') (start : Nat) : s'.spanFrom start = s.spanFrom start := by
  rw [State.spanFrom, State.spanFrom, h.lastStop]

end Forked

/-! ## Ends of steps -/

namespace Outcome

def BreaksOff : Outcome α → Prop
  | .stopped (.missingNode _) _ | .stopped .exhausted _ => True
  | _ => False

/-- A value is yielded where at most `n` tokens are left behind the current one, or at a comma with
one more. -/
def Reaches (n : Nat) : Outcome α → Prop
  | .done _ s => s.remaining ≤ n + 1 ∨ s.remaining = n + 2 ∧ s.kind = .comma
  | .stopped .. => True

/-- However the first parse goes on, it does not end in an error at the place that expects the item,
but where a statement list in colon form ends there. -/
def Excused (f : Fork) : Outcome α → Prop
  | .done _ s => f.rest.length < s.remaining → f.EndsList s
  | .stopped (.error error) s => f.At s → f.item ∈ error.expected → f.EndsList s
  | .stopped .. => True

inductive Follows (f : Fork) : Outcome α → Outcome α → Prop
  /-- They have not come beyond the place. -/
  | done (h : Forked f s s') : Follows f (.done a s) (.done a s')
  /-- They have ended before it. -/
  | error (h : Forked f s s') (hb : f.Before s) :
      Follows f (.stopped (.error error) s) (.stopped (.error error) s')
  | breaksOff (h : outcome.BreaksOff ∨ outcome'.BreaksOff) : Follows f outcome outcome'
  /-- They have been led by what stands at the place. -/
  | apart (h : outcome.Reaches f.rest.length) (h' : outcome'.Reaches f.more.length)
      (hx : outcome.Excused f ∨ outcome'.Passed (f.more.length + 1)) : Follows f outcome outcome'

theorem BreaksOff.not_wants {outcome : Outcome α} (h : outcome.BreaksOff) {n : Nat}
    {item : Expected} : ¬outcome.Wants n item := by
  match outcome, h with
  | .done .., h | .stopped (.error _) _, h => exact False.elim h
  | .stopped (.missingNode _) _, _ | .stopped .exhausted _, _ => exact id

theorem Keeps.reaches {setup : Setup} {s : State} {outcome : Outcome α}
    (h : outcome.Keeps setup s) {n : Nat}
    (hs : s.remaining ≤ n + 1 ∨ s.remaining = n + 2 ∧ s.kind = .comma) : outcome.Reaches n := by
  match outcome, h with
  | .stopped .., _ => trivial
  | .done _ s', h =>
    have hle := h.toGrown.remaining_le
    rcases hs with hs | ⟨hs, hk⟩
    · exact .inl (by omega)
    · rcases Nat.lt_or_ge s'.remaining s.remaining with hlt | hge
      · exact .inl (by omega)
      · have hr : s'.remaining = s.remaining := by omega
        obtain ⟨hc, -⟩ := List.cons_eq_cons.1 (h.toGrown.eq_of_remaining hr).1
        exact .inr ⟨hr.trans hs, by rw [State.kind, hc]; exact hk⟩

theorem Keeps.excused {f : Fork} {setup : Setup} {s : State} {outcome : Outcome α}
    (h : outcome.Keeps setup s) (hs : f.rest.length < s.remaining → f.EndsList s) :
    outcome.Excused f := by
  have grow {s' : State} (hk : Kept s s') (hr : f.rest.length < s'.remaining) : f.EndsList s' := by
    have hle := hk.remaining_le
    have hl := hs (by omega)
    have hp : s.remaining = f.rest.length + 1 := hl.place
    exact hl.grow hk.toGrown (by omega)
  match outcome, h with
  | .done _ s', h => exact grow h
  | .stopped (.error error) s', h =>
    exact fun (hp : s'.remaining = _) _ => grow h (by omega)
  | .stopped (.missingNode _) _, _ | .stopped .exhausted _, _ => trivial

theorem Passed.excused {f : Fork} {outcome : Outcome α}
    (h : outcome.Passed (f.rest.length + 1)) : outcome.Excused f := by
  match outcome, h with
  | .done _ s, (h : s.remaining < _) => exact fun hr => absurd hr (by omega)
  | .stopped (.error _) s, (h : s.remaining < _) =>
    exact fun (hp : s.remaining = _) => absurd hp (by omega)
  | .stopped (.missingNode _) _, _ | .stopped .exhausted _, _ => trivial

def map (g : Error → Error) (k : State → State) : Outcome α → Outcome α
  | .done a s => .done a (k s)
  | .stopped (.error error) s => .stopped (.error (g error)) (k s)
  | .stopped why s => .stopped why s

section
variable {f : Fork} {g : Error → Error} {k : State → State} {outcome outcome' : Outcome α}

theorem BreaksOff.map (h : outcome.BreaksOff) : (outcome.map g k).BreaksOff := by
  match outcome, h with
  | .done .., h | .stopped (.error _) _, h => exact False.elim h
  | .stopped (.missingNode _) _, _ | .stopped .exhausted _, _ => trivial

theorem Reaches.map {n : Nat} (h : outcome.Reaches n)
    (hk : ∀ s, Grown s (k s) ∧ (k s).remaining = s.remaining) : (outcome.map g k).Reaches n := by
  match outcome, h with
  | .stopped (.error _) _, _ | .stopped (.missingNode _) _, _ | .stopped .exhausted _, _ => trivial
  | .done a s, h =>
    obtain ⟨hg, hr⟩ := hk s
    obtain ⟨hc, -⟩ := List.cons_eq_cons.1 (hg.eq_of_remaining hr).1
    change (k s).remaining ≤ n + 1 ∨ (k s).remaining = n + 2 ∧ (k s).current.kind = .comma
    rw [hr, hc]
    exact h

theorem Passed.map {n : Nat} (h : outcome.Passed n)
    (hk : ∀ s, Grown s (k s) ∧ (k s).remaining = s.remaining) : (outcome.map g k).Passed n := by
  match outcome, h with
  | .done _ s, h | .stopped (.error _) s, h =>
    change (k s).remaining < n
    rw [(hk s).2]
    exact h
  | .stopped (.missingNode _) _, _ | .stopped .exhausted _, _ => trivial

theorem Excused.map (h : outcome.Excused f) (hg : ∀ error, (g error).expected = error.expected)
    (hk : ∀ s, Grown s (k s) ∧ (k s).remaining = s.remaining) : (outcome.map g k).Excused f := by
  match outcome, h with
  | .done _ s, h =>
    obtain ⟨hgrown, hr⟩ := hk s
    exact fun hlt => (h (hr ▸ hlt)).grow hgrown hr
  | .stopped (.error error) s, h =>
    obtain ⟨hgrown, hr⟩ := hk s
    exact fun (hp : (k s).remaining = _) hi =>
      (h (hr.symm.trans hp) (hg error ▸ hi)).grow hgrown hr
  | .stopped (.missingNode _) _, _ | .stopped .exhausted _, _ => trivial

theorem Follows.map (h : outcome.Follows f outcome')
    (hg : ∀ error, (g error).expected = error.expected)
    (hf : ∀ {s s'}, Forked f s s' → Forked f (k s) (k s'))
    (hk : ∀ s, Grown s (k s) ∧ (k s).remaining = s.remaining) :
    (outcome.map g k).Follows f (outcome'.map g k) := by
  cases h with
  | done h => exact .done (hf h)
  | error h hb => exact .error (hf h) (Nat.lt_of_lt_of_eq hb (hk _).2.symm)
  | breaksOff h => exact .breaksOff (h.imp BreaksOff.map BreaksOff.map)
  | apart h h' hx =>
    exact .apart (h.map hk) (h'.map hk) (hx.imp (fun hx => hx.map hg hk) fun hx => hx.map hk)

end

end Outcome

section
variable {f : Fork} {setup : Setup} {s s' : State} {step step' : Parse α}
  {next next' : α → Parse β}

theorem bind_breaksOff (h : (step setup s).BreaksOff) : ((step >>= next) setup s).BreaksOff := by
  change (Parse.bind step next setup s).BreaksOff
  unfold Parse.bind
  match step setup s, h with
  | .done .., h | .stopped (.error _) _, h => exact False.elim h
  | .stopped (.missingNode _) _, _ | .stopped .exhausted _, _ => trivial

variable [∀ a, Keeps (next a)] [∀ a, Keeps (next' a)]

omit [∀ a, Keeps (next' a)] in
theorem bind_reaches {n : Nat} (h : (step setup s).Reaches n) :
    ((step >>= next) setup s).Reaches n := by
  change (Parse.bind step next setup s).Reaches n
  unfold Parse.bind
  match step setup s, h with
  | .stopped .., _ => trivial
  | .done a s₁, h => exact (keeps (next a) setup s₁).reaches h

omit [∀ a, Keeps (next' a)] in
theorem bind_excused (h : (step setup s).Excused f) : ((step >>= next) setup s).Excused f := by
  change (Parse.bind step next setup s).Excused f
  unfold Parse.bind
  match step setup s, h with
  | .stopped (.error _) _, h => exact h
  | .stopped (.missingNode _) _, _ | .stopped .exhausted _, _ => trivial
  | .done a s₁, h => exact (keeps (next a) setup s₁).excused h

/-- What follows a step that both have done the same way goes on from there. -/
theorem bind_follows (h : (step setup s).Follows f (step' setup s'))
    (hn : ∀ {a s₁ s₁'}, step setup s = .done a s₁ → step' setup s' = .done a s₁' →
      Forked f s₁ s₁' → (next a setup s₁).Follows f (next' a setup s₁')) :
    ((step >>= next) setup s).Follows f ((step' >>= next') setup s') := by
  generalize ho : step setup s = outcome, ho' : step' setup s' = outcome' at h
  cases h with
  | done h =>
    rw [show (step >>= next) setup s = _ from bind_of_done ho,
      show (step' >>= next') setup s' = _ from bind_of_done ho']
    exact hn ho ho' h
  | error h hb =>
    rw [show (step >>= next) setup s = _ from bind_of_stopped ho,
      show (step' >>= next') setup s' = _ from bind_of_stopped ho']
    exact .error h hb
  | breaksOff h =>
    subst ho ho'
    exact .breaksOff (h.imp bind_breaksOff bind_breaksOff)
  | apart h h' hx =>
    subst ho ho'
    exact .apart (bind_reaches h) (bind_reaches h') (hx.imp bind_excused passed_bind)

end

/-- What the first step does with the one input, the second does with the other, until they are led
by what stands at the place. -/
class Follows (f : Fork) (step step' : Parse α) : Prop where
  follows {setup : Setup} (ht : setup.table = .standard) {s s' : State} (h : Forked f s s') :
    (step setup s).Follows f (step' setup s')

structure FollowsBefore (f : Fork) (step step' : Parse α) : Prop where
  follows {setup : Setup} (ht : setup.table = .standard) {s s' : State} (h : Forked f s s')
    (hb : f.Before s) : (step setup s).Follows f (step' setup s')

structure FollowsAt (f : Fork) (step step' : Parse α) : Prop where
  follows {setup : Setup} (ht : setup.table = .standard) {s s' : State} (h : Forked f s s')
    (ha : f.At s) : (step setup s).Follows f (step' setup s')

/-! ## Steps -/

section
variable {f : Fork} {step step' other other' : Parse α} {next next' : α → Parse β} {setup : Setup}
  {s s' : State}

theorem follows_of (hb : FollowsBefore f step step') (ha : FollowsAt f step step') :
    Follows f step step' where
  follows ht _ _ h := h.cases.elim (ha.follows ht h) (hb.follows ht h)

theorem followsBefore (step step' : Parse α) [h : Follows f step step'] :
    FollowsBefore f step step' := ⟨fun ht _ _ hs _ => h.follows ht hs⟩

theorem followsAt (step step' : Parse α) [h : Follows f step step'] : FollowsAt f step step' :=
  ⟨fun ht _ _ hs _ => h.follows ht hs⟩

/-- At the place it is enough that the first step cannot end in the error, or that the second passes
the new token. -/
theorem Forked.apart (h : Forked f s s') (ha : f.At s) [Keeps step] [Keeps step']
    (hx : (step setup s).Excused f ∨ (step' setup s').Passed s'.remaining) :
    (step setup s).Follows f (step' setup s') := by
  have hr := h.remaining_at ha
  exact .apart ((keeps step setup s).reaches (.inl (Nat.le_of_eq ha)))
    ((keeps step' setup s').reaches (.inl (Nat.le_of_eq hr))) (hr ▸ hx)

/-- At the place a step that passes a token ends in the error only if it wants the item. -/
theorem Fork.At.excused (ha : f.At s) (he : s.Ended) [hp : Passes step]
    (ht : setup.table = .standard) (hw : ¬(step setup s).Wants s.remaining f.item) :
    (step setup s).Excused f := by
  have hr : s.remaining = f.rest.length + 1 := ha
  cases ho : step setup s with
  | done a s₁ =>
    have := hp.passes ht he ho
    exact fun hlt => absurd hlt (by omega)
  | stopped why s₁ =>
    cases why with
    | error error =>
      rw [ho, hr] at hw
      exact fun hp hi => absurd ⟨hp, hi⟩ hw
    | missingNode | exhausted => trivial

/-- A step that takes what it wants does not want the item, or passes the token that is it. -/
theorem followsAt_of_takes {items : List Expected} [Keeps step] [Passes step]
    [h : Takes step items] : FollowsAt f step step where
  follows {setup} ht s s' hs ha := by
    refine hs.apart ha ?_
    by_cases hw : (step setup s).Wants s.remaining f.item
    · right
      refine (h.takes ht hs.ended hs.ended' hs.depth hw).2 ?_
      rw [(hs.current_at ha).2]
      exact f.met
    · exact .inl (ha.excused hs.ended ht hw)

theorem FollowsBefore.bind [∀ a, Keeps (next a)] [∀ a, Keeps (next' a)]
    (h : FollowsBefore f step step') (hn : ∀ a, Follows f (next a) (next' a)) :
    FollowsBefore f (step >>= next) (step' >>= next') :=
  ⟨fun ht _ _ hs hb => bind_follows (h.follows ht hs hb) fun _ _ hs => (hn _).follows ht hs⟩

theorem follows_bind [h : Follows f step step'] (hk : ∀ a, Keeps (next a))
    (hk' : ∀ a, Keeps (next' a)) (hn : ∀ a, Follows f (next a) (next' a)) :
    Follows f (step >>= next) (step' >>= next') :=
  ⟨fun ht _ _ hs => bind_follows (h.follows ht hs) fun _ _ hs => (hn _).follows ht hs⟩

instance [Follows f step step'] [hk : ∀ a, Keeps (next a)] [hk' : ∀ a, Keeps (next' a)]
    [hn : ∀ a, Follows f (next a) (next' a)] : Follows f (step >>= next) (step' >>= next') :=
  follows_bind hk hk' hn

instance (value : α) : Follows f (pure value) (pure value) := ⟨fun _ _ _ h => .done h⟩

instance (g : α → β) [Follows f step step'] : Follows f (g <$> step) (g <$> step') :=
  inferInstanceAs (Follows f (step >>= fun a => pure (g a)) (step' >>= fun a => pure (g a)))

instance {c : Prop} [Decidable c] [Follows f step step'] [Follows f other other'] :
    Follows f (if c then step else other) (if c then step' else other') := by
  split <;> infer_instance

theorem followsBefore_ite {c : Prop} [Decidable c] (h : FollowsBefore f step step')
    (h' : FollowsBefore f other other') :
    FollowsBefore f (if c then step else other) (if c then step' else other') := by
  split
  · exact h
  · exact h'

instance (shape : Shape) (span : Span) : Follows f (push shape span) (push shape span) where
  follows _ s s' h := by
    unfold push
    rw [h.nodes]
    exact .done (h.push _)

instance (start : Nat) : Follows f (look (·.spanFrom start)) (look (·.spanFrom start)) where
  follows _ s s' h := by
    change Outcome.Follows f (.done (s.spanFrom start) s) (.done (s'.spanFrom start) s')
    rw [h.spanFrom]
    exact .done h

instance (id : NodeId) : Follows f (node id) (node id) where
  follows _ s s' h := by
    unfold node
    rw [h.nodes]
    split
    · exact .done h
    · exact .breaksOff (.inl trivial)

instance (start : Nat) (shape : Shape) :
    Follows f (pushFrom start shape) (pushFrom start shape) := by
  unfold pushFrom; infer_instance

instance (id : NodeId) : Follows f (spanOf id) (spanOf id) := by unfold spanOf; infer_instance

theorem inside_eq (delimiter : Char) (construct : String) (opening : Span) :
    inside delimiter construct opening step setup s =
      (step setup s).map (·.inside delimiter construct opening) id := by
  unfold inside mapError
  match step setup s with
  | .done .. | .stopped (.error _) _ | .stopped (.missingNode _) _ | .stopped .exhausted _ => rfl

theorem nested_eq (hd : s.depth < setup.maxDepth) :
    nested step setup s = (step setup s.deeper).map id State.leave := by
  rw [nested_apply, if_pos hd]
  match step setup s.deeper with
  | .done .. | .stopped (.error _) _ | .stopped (.missingNode _) _ | .stopped .exhausted _ => rfl

theorem inside_follows {delimiter : Char} {construct : String} {opening : Span}
    (h : (step setup s).Follows f (step' setup s')) :
    (inside delimiter construct opening step setup s).Follows f
      (inside delimiter construct opening step' setup s') := by
  rw [inside_eq, inside_eq]
  exact h.map (fun error => error.expected_inside _ _ _) id fun s => ⟨.refl s, rfl⟩

theorem nested_follows (h : Forked f s s')
    (hs : (step setup s.deeper).Follows f (step' setup s'.deeper)) :
    (nested step setup s).Follows f (nested step' setup s') := by
  by_cases hd : s.depth < setup.maxDepth
  · rw [nested_eq hd, nested_eq (h.depth ▸ hd)]
    exact hs.map (fun _ => rfl) Forked.leave
      fun s => ⟨⟨(Grown.refl s).tokens, (Grown.refl s).nodes⟩, rfl⟩
  · rw [nested_apply, if_neg hd, nested_apply, if_neg (h.depth ▸ hd)]
    rcases h.cases with ha | hb
    · exact .apart trivial trivial (.inl fun _ hi => absurd hi List.not_mem_nil)
    · rw [h.current hb]
      exact .error h hb

instance (delimiter : Char) (construct : String) (opening : Span) [h : Follows f step step'] :
    Follows f (inside delimiter construct opening step)
      (inside delimiter construct opening step') :=
  ⟨fun ht _ _ hs => inside_follows (h.follows ht hs)⟩

theorem FollowsBefore.inside (h : FollowsBefore f step step') {delimiter : Char}
    {construct : String} {opening : Span} :
    FollowsBefore f (inside delimiter construct opening step)
      (inside delimiter construct opening step') :=
  ⟨fun ht _ _ hs hb => inside_follows (h.follows ht hs hb)⟩

theorem FollowsBefore.nested (h : FollowsBefore f step step') :
    FollowsBefore f (nested step) (nested step') :=
  ⟨fun ht _ _ hs hb => nested_follows hs (h.follows ht hs.deeper hb)⟩

end

/-! ## Looking at the current token -/

section
variable {f : Fork} {next next' : α → Parse β} {setup : Setup} {s s' : State}

theorem followsBefore_look {g : State → α}
    (hg : ∀ {s s' : State}, Forked f s s' → f.Before s → g s' = g s)
    (h : ∀ a, FollowsBefore f (next a) (next' a)) :
    FollowsBefore f (look g >>= next) (look g >>= next') where
  follows {setup} ht s s' hs hb := by
    change (next (g s) setup s).Follows f (next' (g s') setup s')
    rw [hg hs hb]
    exact (h _).follows ht hs hb

theorem followsBefore_kind {next next' : Token.Kind → Parse α}
    (h : ∀ kind, FollowsBefore f (next kind) (next' kind)) :
    FollowsBefore f (look State.kind >>= next) (look State.kind >>= next') :=
  followsBefore_look Forked.kind h

theorem followsBefore_current {next next' : Token → Parse α}
    (h : ∀ token, FollowsBefore f (next token) (next' token)) :
    FollowsBefore f (look State.current >>= next) (look State.current >>= next') :=
  followsBefore_look Forked.current h

theorem followsBefore_advance : FollowsBefore f advance advance where
  follows {_} _ s s' hs hb := by
    unfold advance
    rw [hs.current hb]
    exact .done (hs.advance hb)

theorem followsBefore_refuse (error : Parse Error) {items : List Expected} [h : Tells error items] :
    FollowsBefore f (do refuse (← error) : Parse α) (do refuse (← error)) where
  follows {setup} _ s s' hs hb := by
    obtain ⟨e, -, he⟩ := h.tells setup s.current
    rw [show (do refuse (← error) : Parse α) setup s = _ from bind_of_done (he s rfl),
      show (do refuse (← error) : Parse α) setup s' = _ from
        bind_of_done (he s' (hs.current hb))]
    exact .error hs hb

end

/-! ## Signs -/

section
variable {f : Fork} {step step' other other' : Parse α}

/-- A sign of the current token that leads to passing it. -/
theorem follows_sign {sign : State → Bool} [Keeps step] [Keeps step'] [Keeps other] [Keeps other']
    (hsign : ∀ {s s' : State}, Forked f s s' → f.Before s → sign s' = sign s)
    (hp : ∀ {setup : Setup} {s : State}, setup.table = .standard → s.Ended → sign s →
      (step setup s).Passed s.remaining)
    (hp' : ∀ {setup : Setup} {s : State}, setup.table = .standard → s.Ended → sign s →
      (step' setup s).Passed s.remaining)
    (h : FollowsBefore f step step') (ho : FollowsBefore f other other')
    (ha : ∀ {setup : Setup} {s s' : State}, setup.table = .standard → Forked f s s' → f.At s →
      sign s' = false → (other setup s).Follows f (other' setup s')) :
    Follows f (look sign >>= fun b => if b then step else other)
      (look sign >>= fun b => if b then step' else other') := by
  refine follows_of (followsBefore_look hsign fun b => followsBefore_ite h ho)
    ⟨fun {setup} ht s s' hs hat => ?_⟩
  change ((if sign s then step else other) setup s).Follows f
    ((if sign s' then step' else other') setup s')
  cases hc : sign s with
  | true =>
    have hx := hp ht hs.ended hc
    rw [show s.remaining = _ from hat] at hx
    cases sign s' with
    | true => exact hs.apart hat (.inl hx.excused)
    | false => exact hs.apart hat (.inl hx.excused)
  | false =>
    cases hc' : sign s' with
    | true => exact hs.apart hat (.inr (hp' ht hs.ended' hc'))
    | false => exact ha ht hs hat hc'

theorem isAt_before {kind : Token.Kind} {s s' : State} (h : Forked f s s') (hb : f.Before s) :
    (s'.kind == kind) = (s.kind == kind) := by rw [h.kind hb]

/-- What follows where a token of a kind may be passed.  It is not passed at the place only if the
new token is of another kind. -/
theorem follows_eat {kind : Token.Kind} [hi : kind.Inner] [Keeps step] [Keeps step'] [Keeps other]
    [Keeps other'] (h : Follows f step step') (ho : FollowsBefore f other other')
    (ha : f.put.kind ≠ kind → FollowsAt f other other') :
    Follows f (eat kind >>= fun b => if b then step else other)
      (eat kind >>= fun b => if b then step' else other') := by
  have heat (step other : Parse α) : (eat kind >>= fun b => if b then step else other) =
      (isAt kind >>= fun b => if b then advance >>= fun _ => step else other) := by
    funext setup s
    simp only [eat, Bind.bind, Parse.bind, isAt, look]
    cases s.kind == kind <;> rfl
  rw [heat, heat]
  have hp {step : Parse α} [Keeps step] {setup : Setup} {s : State} (he : s.Ended)
      (hk : s.kind == kind) : ((advance >>= fun _ => step) setup s).Passed s.remaining :=
    passed_bind (advance_passed he (State.hasTokens_of_kind (beq_iff_eq.1 hk) hi.ne))
  refine follows_sign isAt_before (fun _ => hp) (fun _ => hp)
    (followsBefore_advance.bind fun _ => h) ho fun ht hs hat hk => (ha ?_).follows ht hs hat
  rw [← (hs.current_at hat).2]
  exact beq_eq_false_iff_ne.1 hk

instance (kind : Token.Kind) [hi : kind.Inner] {next next' : Token → Parse α}
    [∀ token, Keeps (next token)] [∀ token, Keeps (next' token)] [Keeps other] [Keeps other']
    [hn : ∀ token, Follows f (next token) (next' token)] [Follows f other other'] :
    Follows f (isAt kind >>= fun b => if b then advance >>= next else other)
      (isAt kind >>= fun b => if b then advance >>= next' else other') := by
  have hp {next : Token → Parse α} [∀ token, Keeps (next token)] {setup : Setup} {s : State}
      (he : s.Ended) (hk : s.kind == kind) : ((advance >>= next) setup s).Passed s.remaining :=
    passed_bind (advance_passed he (State.hasTokens_of_kind (beq_iff_eq.1 hk) hi.ne))
  exact follows_sign isAt_before (fun _ => hp) (fun _ => hp) (followsBefore_advance.bind hn)
    (followsBefore _ _) fun ht hs hat _ => (followsAt _ _).follows ht hs hat

instance (kind : Token.Kind) [kind.Inner] : Follows f (eat kind) (eat kind) := by
  unfold eat; infer_instance

instance (word : String) : Follows f (eatWord word) (eatWord word) := by
  have hp {setup : Setup} {s : State} (he : s.Ended) (hk : s.current.isWord word) :
      ((do let _ ← advance; return true : Parse Bool) setup s).Passed s.remaining :=
    passed_bind (advance_passed he (State.hasTokens_of_isWord hk))
  exact follows_sign (fun h hb => by rw [h.current hb]) (fun _ => hp) (fun _ => hp)
    (followsBefore_advance.bind fun _ => inferInstance) (followsBefore _ _) fun ht hs hat _ =>
    (followsAt _ _).follows ht hs hat

instance {sign sign' : Parse Bool} [Follows f sign sign'] [Keeps step] [Keeps step']
    [Follows f step step'] : Follows f (optionally sign step) (optionally sign' step') := by
  unfold optionally; infer_instance

theorem followsBefore_expectOr (kind : Token.Kind) (error : Parse Error) {items : List Expected}
    [Tells error items] : FollowsBefore f (expectOr kind error) (expectOr kind error) :=
  followsBefore_look isAt_before fun _ =>
    followsBefore_ite followsBefore_advance (followsBefore_refuse error)

/-- Where the item is expected, the new token is passed. -/
theorem follows_expectOr (kind : Token.Kind) [hi : kind.Inner] (error : Parse Error)
    {items : List Expected} [Keeps error] [Tells error items]
    (hput : f.item ∈ items → f.put.kind = kind) :
    Follows f (expectOr kind error) (expectOr kind error) := by
  have hp {setup : Setup} {s : State} (he : s.Ended) (hk : s.kind == kind) :
      (advance setup s).Passed s.remaining :=
    advance_passed he (State.hasTokens_of_kind (beq_iff_eq.1 hk) hi.ne)
  refine follows_sign isAt_before (fun _ => hp) (fun _ => hp) followsBefore_advance
    (followsBefore_refuse error) fun {setup s s'} _ hs hat hk => hs.apart hat (.inl ?_)
  obtain ⟨e, he, ho⟩ := refuses (α := Token) error setup s
  rw [ho]
  intro _ hm
  have hne := beq_eq_false_iff_ne.1 hk
  rw [State.kind, (hs.current_at hat).2] at hne
  exact absurd (hput (he ▸ hm)) hne

instance (kind : Token.Kind) [kind.Inner] : Follows f (expect kind) (expect kind) :=
  follows_expectOr kind _ fun hm =>
    show Expected.Met (.token kind) f.put from f.met.of_singleton hm

instance : Follows f name name :=
  follows_of (followsBefore_current fun _ => followsBefore_ite
    (followsBefore_advance.bind fun _ => inferInstance) (followsBefore_refuse _)) followsAt_of_takes

end

/-! ## Loops -/

section
variable {f : Fork}

theorem follows_iterate {turn turn' : α → Parse (Turn α β)} [∀ a, Keeps (turn a)]
    [∀ a, Keeps (turn' a)] (h : ∀ a, Follows f (turn a) (turn' a)) {turns turns' : Nat}
    (hle : turns ≤ turns') (a : α) :
    Follows f (iterate turn turns a) (iterate turn' turns' a) := by
  induction turns generalizing turns' a with
  | zero => exact ⟨fun _ _ _ _ => .breaksOff (.inl trivial)⟩
  | succ turns ih =>
    obtain ⟨turns', rfl⟩ : ∃ n, turns' = n + 1 := ⟨turns' - 1, by omega⟩
    refine @follows_bind _ _ _ _ _ _ _ (h a) (fun result => ?_) (fun result => ?_) fun result => ?_
    · cases result with
      | again a => exact keeps_iterate turns a
      | finish b => infer_instance
    · cases result with
      | again a => exact keeps_iterate turns' a
      | finish b => infer_instance
    · cases result with
      | again a => exact ih (Nat.le_of_succ_le_succ hle) a
      | finish b => exact inferInstanceAs (Follows f (pure b) (pure b))

theorem follows_loop {turn turn' : α → Parse (Turn α β)} [∀ a, Keeps (turn a)]
    [∀ a, Keeps (turn' a)] (h : ∀ a, Follows f (turn a) (turn' a)) (a : α) :
    Follows f (loop turn a) (loop turn' a) where
  follows ht _ _ hs :=
    (follows_iterate h (Nat.succ_le_succ hs.remaining_le) a).follows ht hs

instance {step step' : Parse (Option (α × Bool))} [Keeps step] [Keeps step']
    [Follows f step step'] :
    Follows f (collect step) (collect step') := by
  change Follows f (loop (collectTurn step) []) (loop (collectTurn step') [])
  refine follows_loop (fun items => ?_) []
  refine follows_bind (fun item => ?_) (fun item => ?_) fun item => ?_
  all_goals split <;> infer_instance

end

end Parse
end Smaug
