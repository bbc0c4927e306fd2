import Mathlib
import Smaug.Proofs.Parse.Alike.Basic
import Smaug.Proofs.Parse.Passing
import Smaug.Proofs.Tree.Shift

/-! # Steps on a piece of the input

A parse that stands somewhere in its input, and a parse of some of the next tokens alone: cut out,
moved to the start of an input of their own and ended there.  As long as the first keeps to these
tokens, the second does the same.  It meets the end of the input where the first sees the tokens
after the piece, but a rule that looks at these without passing them does not take them for more
than that.
-/

namespace Smaug

class Token.Kind.Inner (kind : Token.Kind) : Prop where
  ne : kind ≠ .eof

namespace Token.Kind

instance : Inner .assignment := ⟨by decide⟩
instance : Inner .caseWord := ⟨by decide⟩
instance : Inner .closeBracket := ⟨by decide⟩
instance : Inner .closeCurly := ⟨by decide⟩
instance : Inner .closeParen := ⟨by decide⟩
instance : Inner .colon := ⟨by decide⟩
instance : Inner .comma := ⟨by decide⟩
instance : Inner .dot := ⟨by decide⟩
instance : Inner .ellipsis := ⟨by decide⟩
instance : Inner .enumWord := ⟨by decide⟩
instance : Inner .externalWord := ⟨by decide⟩
instance : Inner .letWord := ⟨by decide⟩
instance : Inner .openBracket := ⟨by decide⟩
instance : Inner .openCurly := ⟨by decide⟩
instance : Inner .openParen := ⟨by decide⟩
instance : Inner .string := ⟨by decide⟩
instance : Inner .structWord := ⟨by decide⟩
instance : Inner .yieldWord := ⟨by decide⟩

end Token.Kind

namespace Parse

open Grammar

/-- Where a piece of the input stands: the bytes and the nodes before it, and the tokens after. -/
structure Frame where
  offset : Nat
  before : List Node
  rest : List Token

/-- Values that mention places in the source or in the arena. -/
class Shift (α : Type) where
  /-- What a value of the piece is in the input as a whole. -/
  shift : Frame → α → α

export Shift (shift)

instance : Shift Bool := ⟨fun _ value => value⟩
instance : Shift (Option String) := ⟨fun _ value => value⟩
instance : Shift Token.Kind := ⟨fun _ value => value⟩
instance : Shift NodeId := ⟨fun f id => id + f.before.length⟩
instance : Shift Span := ⟨fun f => Span.shift f.offset⟩
instance : Shift Token := ⟨fun f => Token.shift f.offset⟩
instance : Shift Name := ⟨fun f => Name.shift f.offset⟩
instance : Shift Path := ⟨fun f => Path.shift f.offset⟩
instance : Shift External := ⟨fun f => External.shift f.offset⟩
instance : Shift CasePattern := ⟨fun f => CasePattern.shift f.before.length f.offset⟩
instance : Shift Body := ⟨fun f => Body.shift f.before.length⟩
instance : Shift Shape := ⟨fun f => Shape.shift f.before.length f.offset⟩
instance : Shift Node := ⟨fun f => Node.shift f.before.length f.offset⟩
instance [Shift α] : Shift (Option α) := ⟨fun f => Option.map (shift f)⟩
instance [Shift α] : Shift (List α) := ⟨fun f => List.map (shift f)⟩
instance [Shift α] [Shift β] : Shift (α × β) := ⟨fun f value => (shift f value.1, shift f value.2)⟩

/-- `s` stands in the input where `c` stands in the piece. -/
structure Framed (f : Frame) (s c : State) : Prop where
  ended : s.Ended
  tokens : ∃ tokens stop, c.tokens = tokens ++ [stop] ∧ stop.kind = .eof ∧
    (∀ token ∈ tokens, token.kind ≠ .eof) ∧
    s.tokens = tokens.map (Token.shift f.offset) ++ f.rest
  nodes : s.nodes.toList = f.before ++ c.nodes.toList.map (shift f)
  depth : s.depth = c.depth
  lastStop : max s.lastStop f.offset = c.lastStop + f.offset

namespace Framed

variable {f : Frame} {s c : State}

theorem ended_piece (h : Framed f s c) : c.Ended := by
  obtain ⟨tokens, stop, hc, hk, -⟩ := h.tokens
  exact ⟨stop, by simp [hc], hk⟩

theorem size_nodes (h : Framed f s c) : s.nodes.size = c.nodes.size + f.before.length := by
  have hn := congrArg List.length h.nodes
  simp only [Array.length_toList, List.length_append, List.length_map] at hn
  omega

/-- Within the piece the current token is the same. -/
theorem inside (h : Framed f s c) (hr : f.rest.length < s.remaining) :
    s.current = shift f c.current ∧ c.hasTokens := by
  obtain ⟨tokens, stop, hc, hk, ht, hs⟩ := h.tokens
  cases tokens with
  | nil =>
    rw [← State.length_tokens, hs] at hr
    simp at hr
  | cons token tokens =>
    obtain ⟨hs, -⟩ := List.cons_eq_cons.1 (show s.current :: s.ahead = _ from hs)
    obtain ⟨hc, -⟩ := List.cons_eq_cons.1 (show c.current :: c.ahead = _ from hc)
    refine ⟨by rw [hs, hc]; rfl, ?_⟩
    rw [State.hasTokens, State.kind, hc, bne_iff_ne]
    exact ht token List.mem_cons_self

theorem kind (h : Framed f s c) (hr : f.rest.length < s.remaining) : s.kind = c.kind := by
  rw [State.kind, (h.inside hr).1]
  rfl

/-- At the end of the piece its input ends. -/
theorem outside (h : Framed f s c) (hr : s.remaining ≤ f.rest.length) :
    c.kind = .eof ∧ c.ahead = [] := by
  obtain ⟨tokens, stop, hc, hk, -, hs⟩ := h.tokens
  cases tokens with
  | nil =>
    obtain ⟨hc, ha⟩ := List.cons_eq_cons.1 (show c.current :: c.ahead = _ from hc)
    exact ⟨by rw [State.kind, hc, hk], ha⟩
  | cons token tokens =>
    rw [← State.length_tokens, hs] at hr
    simp at hr

theorem hasTokens (h : Framed f s c) (hr : f.rest.length < s.remaining) : s.hasTokens := by
  have hc := (h.inside hr).2
  rwa [State.hasTokens, h.kind hr]

theorem advance (h : Framed f s c) (hr : f.rest.length < s.remaining) :
    Framed f s.advance c.advance := by
  have hts := h.hasTokens hr
  obtain ⟨hcur, htc⟩ := h.inside hr
  obtain ⟨hs, hse⟩ := h.ended.advance hts
  obtain ⟨hc, hce⟩ := h.ended_piece.advance htc
  have hks := h.ended.remaining_advance hts
  have hkc := h.ended_piece.remaining_advance htc
  rcases s.advance_cases with he | ⟨-, -, hns, hds, hls⟩
  · rw [he] at hks
    omega
  rcases c.advance_cases with he | ⟨-, -, hnc, hdc, hlc⟩
  · rw [he] at hkc
    omega
  refine ⟨hse, ?_, by rw [hns, hnc, h.nodes], by rw [hds, hdc, h.depth], ?_⟩
  · obtain ⟨tokens, stop, hct, hk, ht, hst⟩ := h.tokens
    cases tokens with
    | nil =>
      rw [← State.length_tokens, hst] at hr
      simp at hr
    | cons token tokens =>
      rw [hc] at hct
      rw [hs] at hst
      exact ⟨tokens, stop, (List.cons_eq_cons.1 hct).2, hk,
        fun token h => ht token (List.mem_cons_of_mem _ h), (List.cons_eq_cons.1 hst).2⟩
  · rw [hls, hlc, hcur]
    exact Nat.max_eq_left (Nat.le_add_left _ _)

theorem peek (h : Framed f s c) (hr : f.rest.length + 1 < s.remaining) :
    s.peek 1 = c.peek 1 := by
  obtain ⟨tokens, stop, hc, -, -, hs⟩ := h.tokens
  have hlen : tokens.length + f.rest.length = s.remaining := by
    rw [← State.length_tokens, hs, List.length_append, List.length_map]
  have hi : 1 < tokens.length := by omega
  have hsi : (s.current :: s.ahead)[1]? = some (tokens[1].shift f.offset) := by
    change s.tokens[1]? = _
    rw [hs, List.getElem?_append_left (by simpa using hi), List.getElem?_map,
      List.getElem?_eq_getElem hi]
    rfl
  have hci : (c.current :: c.ahead)[1]? = some tokens[1] := by
    change c.tokens[1]? = _
    rw [hc, List.getElem?_append_left hi, List.getElem?_eq_getElem hi]
  rw [State.peek, State.peek, hsi, hci]
  rfl

theorem peek_end (h : Framed f s c) (hr : s.remaining = f.rest.length + 1) :
    c.peek 1 = .eof := by
  obtain ⟨tokens, stop, hc, hk, -, hs⟩ := h.tokens
  have hlen : tokens.length + f.rest.length = s.remaining := by
    rw [← State.length_tokens, hs, List.length_append, List.length_map]
  have hi : tokens.length = 1 := by omega
  have hci : (c.current :: c.ahead)[1]? = some stop := by
    change c.tokens[1]? = _
    rw [hc, List.getElem?_append_right (by omega), hi]
    rfl
  rw [State.peek, hci]
  exact hk

theorem push (h : Framed f s c) (node : Node) :
    Framed f (s.push (shift f node)) (c.push node) where
  ended := h.ended
  tokens := h.tokens
  nodes := by simp [State.push, h.nodes]
  depth := h.depth
  lastStop := h.lastStop

theorem deeper (h : Framed f s c) : Framed f s.deeper c.deeper where
  ended := h.ended
  tokens := h.tokens
  nodes := h.nodes
  depth := congrArg (· + 1) h.depth
  lastStop := h.lastStop

theorem leave (h : Framed f s c) : Framed f s.leave c.leave where
  ended := h.ended
  tokens := h.tokens
  nodes := h.nodes
  depth := congrArg (· - 1) h.depth
  lastStop := h.lastStop

theorem spanFrom (h : Framed f s c) (start : Nat) :
    s.spanFrom (start + f.offset) = shift f (c.spanFrom start) := by
  have hl := h.lastStop
  have hmax : max s.lastStop (start + f.offset) = max c.lastStop start + f.offset := by omega
  rw [State.spanFrom, hmax]
  rfl

theorem getElem? (h : Framed f s c) (id : NodeId) :
    s.nodes[shift f id]? = c.nodes[id]?.map (shift f) := by
  have hid : shift f id = f.before.length + id := Nat.add_comm _ _
  rw [← Array.getElem?_toList, ← Array.getElem?_toList, h.nodes, hid,
    List.getElem?_append_right (Nat.le_add_right _ _), Nat.add_sub_cancel_left, List.getElem?_map]

end Framed

/-- A step has come in the piece to what has come to `value` and `s` in the input, or was cut off
too early to come to anything. -/
inductive Outcome.Framed [Shift α] (f : Frame) (value : α) (s : State) : Outcome α → Prop
  | done (hv : value = shift f v) (h : Parse.Framed f s c) : Outcome.Framed f value s (.done v c)
  | exhausted : Outcome.Framed f value s (.stopped .exhausted c)

/-- What the one step does in the input and ends with `n` tokens of the piece left, or more, the
other does in the piece. -/
class Cuts [Shift α] (f : Frame) (n : Nat) (step step' : Parse α) : Prop where
  framed {setup setup' : Setup} (ht : setup.table = .standard) (hsetup : setup.Alike setup')
    {s c s' : State} {value : α} (hs : Framed f s c) (hd : step setup s = .done value s')
    (hn : f.rest.length + n ≤ s'.remaining) : (step' setup' c).Framed f value s'

/-! ## Steps -/

section
variable [Shift α] [Shift β] {f : Frame} {n : Nat} {step step' : Parse α}

theorem Cuts.bind {m : Nat} {next next' : α → Parse β} (h : Cuts f m step step')
    (hn : ∀ value, Cuts f n (next (shift f value)) (next' value))
    (hp : ∀ value {setup : Setup} {s s' : State} {result : β}, setup.table = .standard → s.Ended →
      next value setup s = .done result s' → s'.remaining + m ≤ s.remaining + n)
    [Keeps step] : Cuts f n (step >>= next) (step' >>= next') where
  framed {setup setup'} ht hsetup {s c s' value} hs hd hle := by
    obtain ⟨a, s₁, ha, hd⟩ := bind_done.1 hd
    have he := hs.ended.grow (kept_of_done ha).toGrown
    have hm := hp a ht he hd
    have ho := h.framed ht hsetup hs ha (by omega)
    change (Parse.bind step' next' setup' c).Framed f value s'
    unfold Parse.bind
    generalize step' setup' c = outcome at ho
    cases ho with
    | done hv h₁ =>
      subst hv
      exact (hn _).framed ht hsetup h₁ hd hle
    | exhausted => exact .exhausted

/-- Where the rest passes a token, the first step ends with one more left. -/
instance (priority := high) {next next' : α → Parse β} [Keeps step] [hp : ∀ a, Passes (next a)]
    [h : Cuts f (n + 1) step step'] [hn : ∀ a, Cuts f n (next (shift f a)) (next' a)] :
    Cuts f n (step >>= next) (step' >>= next') :=
  h.bind hn fun a _ _ _ _ ht he hd => by
    have := (hp a).passes ht he hd
    omega

instance {next next' : α → Parse β} [Keeps step] [∀ a, Keeps (next a)]
    [h : Cuts f n step step'] [hn : ∀ a, Cuts f n (next (shift f a)) (next' a)] :
    Cuts f n (step >>= next) (step' >>= next') :=
  h.bind hn fun _ _ _ _ _ _ _ hd => by
    have := (kept_of_done hd).remaining_le
    omega

theorem cuts_next {next next' : α → Parse β}
    [Keeps step] [Cuts f (n + 1) step step'] (hp : ∀ a, Passes (next a))
    (hn : ∀ a, Cuts f n (next (shift f a)) (next' a)) :
    Cuts f n (step >>= next) (step' >>= next') := inferInstance

theorem cuts_bind {next next' : α → Parse β}
    [Keeps step] [Cuts f n step step'] (hk : ∀ a, Keeps (next a))
    (hn : ∀ a, Cuts f n (next (shift f a)) (next' a)) :
    Cuts f n (step >>= next) (step' >>= next') := inferInstance

class Same {α : Sort*} (a b : α) : Prop where
  eq : a = b

instance {α : Sort*} (a : α) : Same a a := ⟨rfl⟩

instance : Same none (shift f (none : Option α)) := ⟨rfl⟩

instance : Same [] (shift f ([] : List α)) := ⟨rfl⟩

instance {a a' : α} [h : Same a (shift f a')] : Same (some a) (shift f (some a')) :=
  ⟨congrArg some h.eq⟩

instance (first : NodeId) (more : List NodeId) :
    Same (Shape.tuple (shift f first :: shift f more)) (shift f (Shape.tuple (first :: more))) :=
  ⟨rfl⟩

instance : Same (Shape.tuple []) (shift f (Shape.tuple [])) := ⟨rfl⟩

instance (first body : NodeId) (more : List NodeId) :
    Same (Shape.batchAttributes (shift f first :: shift f more) (shift f body))
      (shift f (Shape.batchAttributes (first :: more) body)) := ⟨rfl⟩

instance {a b a' b' : Span} [h : Same a (shift f a')] [h' : Same b (shift f b')] :
    Same (a.merge b) (shift f (a'.merge b')) where
  eq := by
    rw [h.eq, h'.eq]
    simp [Span.merge, shift, Nat.add_min_add_right, Nat.add_max_add_right]

theorem cuts_pure {value value' : α} (h : value = shift f value') :
    Cuts f n (pure value) (pure value') where
  framed _ _ _ _ _ _ hs hd _ := by
    obtain ⟨rfl, rfl⟩ := pure_done.1 hd
    exact .done h hs

instance {value value' : α} [h : Same value (shift f value')] :
    Cuts f n (pure value) (pure value') := cuts_pure h.eq

instance {g g' : α → β} [Keeps step] [h : Cuts f n step step']
    [hg : ∀ a, Same (g (shift f a)) (shift f (g' a))] : Cuts f n (g <$> step) (g' <$> step') :=
  inferInstanceAs (Cuts f n (step >>= fun a => pure (g a)) (step' >>= fun a => pure (g' a)))

instance (error : Parse Error) : Cuts f n (error >>= fun e => refuse e) step' where
  framed _ _ _ _ _ _ _ hd _ := by simp [bind_done, refuse_done] at hd

instance {c : Prop} [Decidable c] {other other' : Parse α} [h : Cuts f n step step']
    [h' : Cuts f n other other'] :
    Cuts f n (if c then step else other) (if c then step' else other') := by
  split <;> assumption

theorem cuts_look {g g' : State → α} (h : ∀ {s c}, Framed f s c →
    f.rest.length + n ≤ s.remaining → g s = shift f (g' c)) : Cuts f n (look g) (look g') where
  framed _ _ _ _ _ _ hs hd hn := by
    obtain ⟨rfl, rfl⟩ := look_done.1 hd
    exact .done (h hs hn) hs

instance : Cuts f (n + 1) advance advance where
  framed _ _ s c s' _ hs hd hn := by
    obtain ⟨rfl, rfl⟩ := advance_done.1 hd
    have hle := (Kept.advance s).remaining_le
    have hr : f.rest.length < s.remaining := by omega
    exact .done (hs.inside hr).1 (hs.advance hr)

instance {shape shape' : Shape} {span span' : Span} [h : Same shape (shift f shape')]
    [h' : Same span (shift f span')] : Cuts f n (push shape span) (push shape' span') where
  framed _ _ _ _ _ _ hs hd _ := by
    obtain ⟨rfl, rfl⟩ := push_done.1 hd
    rw [h.eq, h'.eq]
    exact .done hs.size_nodes (hs.push ⟨shape', span'⟩)

instance {id id' : NodeId} [h : Same id (shift f id')] : Cuts f n (spanOf id) (spanOf id') where
  framed {setup setup'} _ _ s c _ _ hs hd _ := by
    obtain ⟨node, hn, rfl, rfl⟩ := spanOf_done.1 hd
    rw [h.eq, hs.getElem?, Option.map_eq_some_iff] at hn
    obtain ⟨node', hn', rfl⟩ := hn
    have hd' : spanOf id' setup' c = .done node'.span c := spanOf_done.2 ⟨node', hn', rfl, rfl⟩
    rw [hd']
    exact .done rfl hs

instance (delimiter : Char) (construct : String) (opening opening' : Span)
    [h : Cuts f n step step'] :
    Cuts f n (inside delimiter construct opening step)
      (inside delimiter construct opening' step') where
  framed ht hsetup _ _ _ _ hs hd hn := by
    have ho := h.framed ht hsetup hs (inside_done.1 hd) hn
    unfold inside mapError
    generalize step' _ _ = outcome at ho
    cases ho with
    | done hv h => exact .done hv h
    | exhausted => exact .exhausted

theorem nested_framed {setup setup' : Setup} (hsetup : setup.Alike setup') {s c s' : State}
    {value : α} (hs : Framed f s c) (hd : nested step setup s = .done value s')
    (h : ∀ {s₁}, step setup s.deeper = .done value s₁ → s'.remaining = s₁.remaining →
      (step' setup' c.deeper).Framed f value s₁) : (nested step' setup' c).Framed f value s' := by
  obtain ⟨hlt, s₁, hin, rfl⟩ := nested_done.1 hd
  have ho := h hin rfl
  rw [nested_apply, if_pos (by rwa [← hs.depth, ← hsetup.maxDepth])]
  generalize step' _ _ = outcome at ho
  cases ho with
  | done hv h => exact .done hv h.leave
  | exhausted => exact .exhausted

instance [h : Cuts f n step step'] : Cuts f n (nested step) (nested step') where
  framed ht hsetup _ _ _ _ hs hd hn :=
    nested_framed hsetup hs hd fun hin hr => h.framed ht hsetup hs.deeper hin (hr ▸ hn)

structure CutsInside (f : Frame) (n : Nat) (step step' : Parse α) : Prop where
  framed {setup setup' : Setup} (ht : setup.table = .standard) (hsetup : setup.Alike setup')
    {s c s' : State} {value : α} (hs : Framed f s c) (hr : f.rest.length < s.remaining)
    (hd : step setup s = .done value s') (hn : f.rest.length + n ≤ s'.remaining) :
    (step' setup' c).Framed f value s'

theorem Cuts.inside (h : Cuts f n step step') : CutsInside f n step step' :=
  ⟨fun ht hsetup _ _ _ _ hs _ hd hn => h.framed ht hsetup hs hd hn⟩

/-- Where a step passes a token, it starts at one of the piece. -/
theorem CutsInside.cuts (h : CutsInside f n step step') [hp : Passes step] :
    Cuts f n step step' where
  framed ht hsetup _ _ _ _ hs hd hn := by
    have := hp.passes ht hs.ended hd
    exact h.framed ht hsetup hs (by omega) hd hn

/-- The same, where the step does as much at the end of the input. -/
theorem CutsInside.cuts_of_end (h : CutsInside f n step step')
    (hend : ∀ {setup setup' : Setup} {s c s' : State} {value : α}, setup.table = .standard →
      setup.Alike setup' → Framed f s c → c.kind = .eof → s.remaining ≤ f.rest.length →
      step setup s = .done value s' → f.rest.length + n ≤ s'.remaining →
      (step' setup' c).Framed f value s') : Cuts f n step step' where
  framed ht hsetup s c _ _ hs hd hn := by
    by_cases hr : f.rest.length < s.remaining
    · exact h.framed ht hsetup hs hr hd hn
    · exact hend ht hsetup hs (hs.outside (by omega)).1 (by omega) hd hn

theorem cutsInside_nested (h : CutsInside f n step step') :
    CutsInside f n (nested step) (nested step') where
  framed ht hsetup _ _ _ _ hs hr hd hn :=
    nested_framed hsetup hs hd fun hin hr' => h.framed ht hsetup hs.deeper hr hin (hr' ▸ hn)

theorem cutsInside_look {g : State → α} {next next' : α → Parse β}
    (hg : ∀ {s c}, Framed f s c → f.rest.length < s.remaining → g s = shift f (g c))
    (h : ∀ a, CutsInside f n (next (shift f a)) (next' a)) :
    CutsInside f n (look g >>= next) (look g >>= next') where
  framed {setup setup'} ht hsetup s c s' value hs hr hd hn := by
    change next (g s) setup s = _ at hd
    rw [hg hs hr] at hd
    exact (h _).framed ht hsetup hs hr hd hn

theorem cutsInside_advance {next next' : Token → Parse α}
    (h : ∀ token, Cuts f n (next (shift f token)) (next' token)) :
    CutsInside f n (advance >>= next) (advance >>= next') where
  framed {setup setup'} ht hsetup s c s' value hs hr hd hn := by
    change next s.current setup s.advance = _ at hd
    rw [(hs.inside hr).1] at hd
    exact (h _).framed ht hsetup (hs.advance hr) hd hn

theorem cutsInside_given {next next' : Table → Parse α}
    (h : ∀ table, CutsInside f n (next table) (next' table)) :
    CutsInside f n (given Setup.table >>= next) (given Setup.table >>= next') where
  framed {setup setup'} ht hsetup s c s' value hs hr hd hn := by
    change next setup.table setup s = _ at hd
    change (next' setup'.table setup' c).Framed f value s'
    rw [← hsetup.table]
    exact (h _).framed ht hsetup hs hr hd hn

/-! ## Loops -/

instance : Shift (Turn α β) where
  shift f
    | .again a => .again (shift f a)
    | .finish b => .finish (shift f b)

theorem cuts_iterate {turn turn' : α → Parse (Turn α β)} [∀ a, Keeps (turn a)]
    (h : ∀ a, Cuts f n (turn (shift f a)) (turn' a)) (turns turns' : Nat) (a : α) :
    Cuts f n (iterate turn turns (shift f a)) (iterate turn' turns' a) := by
  induction turns' generalizing turns a with
  | zero => exact ⟨fun _ _ _ _ _ _ _ _ _ => .exhausted⟩
  | succ turns' ih =>
    cases turns with
    | zero => exact ⟨fun _ _ _ _ _ _ _ hd _ => by cases hd⟩
    | succ turns =>
      refine (h a).bind (fun result => ?_) fun result _ _ _ _ _ _ hd => ?_
      · cases result with
        | again a => exact ih turns a
        | finish b => exact inferInstanceAs (Cuts f n (pure (shift f b)) (pure b))
      · cases result with
        | again a =>
          have : Keeps (iterate turn turns a) := keeps_iterate turns a
          have := (kept_of_done (show iterate turn turns a _ _ = _ from hd)).remaining_le
          omega
        | finish b =>
          obtain ⟨-, rfl⟩ := pure_done.1 hd
          omega

theorem cuts_loop {turn turn' : α → Parse (Turn α β)} (hk : ∀ a, Keeps (turn a))
    (h : ∀ a, Cuts f n (turn (shift f a)) (turn' a)) (a : α) :
    Cuts f n (loop turn (shift f a)) (loop turn' a) where
  framed ht hsetup s c _ _ hs hd hn :=
    (cuts_iterate h (s.remaining + 1) (c.remaining + 1) a).framed ht hsetup hs hd hn

theorem shift_reverse (items : List α) : shift f items.reverse = (shift f items).reverse :=
  List.map_reverse

instance {step step' : Parse (Option (α × Bool))} [Keeps step] [h : Cuts f n step step'] :
    Cuts f n (collect step) (collect step') := by
  refine cuts_loop (fun items => keeps_bind step fun item => ?_) (fun items => ?_) []
  · split <;> infer_instance
  · refine h.bind (fun item => ?_) fun item _ _ _ _ _ _ hd => ?_
    · match item with
      | none => exact cuts_pure (congrArg Turn.finish (shift_reverse items).symm)
      | some (item, true) => exact cuts_pure rfl
      | some (item, false) =>
        exact cuts_pure (congrArg Turn.finish (shift_reverse (item :: items)).symm)
    · match item with
      | none | some (_, true) | some (_, false) =>
        obtain ⟨-, rfl⟩ := pure_done.1 hd
        exact Nat.le_refl _

end

/-! ## Tokens and nodes -/

section
variable {f : Frame} {n : Nat}

instance : Cuts f (n + 1) (look State.kind) (look State.kind) :=
  cuts_look fun hs hn => hs.kind (by omega)

instance : Cuts f (n + 1) (look (·.current.span)) (look (·.current.span)) :=
  cuts_look fun hs hn => by
    rw [(hs.inside (by omega)).1]
    rfl

instance (kind : Token.Kind) : Cuts f (n + 1) (isAt kind) (isAt kind) :=
  cuts_look fun hs hn => by
    rw [hs.kind (by omega)]
    rfl

instance {start start' : Nat} [h : Same start (start' + f.offset)] :
    Cuts f n (look (·.spanFrom start)) (look (·.spanFrom start')) :=
  cuts_look fun hs _ => by
    rw [h.eq]
    exact hs.spanFrom start'

/-- Where a construct starts, if it passes a token. -/
instance (priority := high) [Shift α] {next next' : Nat → Parse α}
    [hp : ∀ start, Passes (next start)]
    [hn : ∀ start, Cuts f n (next (start + f.offset)) (next' start)] :
    Cuts f n (look (·.current.span.start) >>= next) (look (·.current.span.start) >>= next') := by
  refine CutsInside.cuts ⟨fun {setup setup'} ht hsetup {s c s' value} hs hr hd hle => ?_⟩
  have hc : s.current.span.start = c.current.span.start + f.offset := by
    rw [(hs.inside hr).1]
    rfl
  change next s.current.span.start setup s = _ at hd
  rw [hc] at hd
  exact (hn _).framed ht hsetup hs hd hle

theorem cuts_kind [Shift α] {next next' : Token.Kind → Parse α} (hp : ∀ kind, Passes (next kind))
    (hn : ∀ kind, Cuts f n (next kind) (next' kind)) :
    Cuts f n (look State.kind >>= next) (look State.kind >>= next') := cuts_next hp hn

theorem cuts_given [Shift α] {next next' : Table → Parse α}
    (h : Cuts f n (next .standard) (next' .standard)) :
    Cuts f n (given Setup.table >>= next) (given Setup.table >>= next') where
  framed {setup setup'} ht hsetup s c s' value hs hd hn := by
    change next setup.table setup s = _ at hd
    change (next' setup'.table setup' c).Framed f value s'
    rw [← hsetup.table, ht]
    rw [ht] at hd
    exact h.framed ht hsetup hs hd hn

/-- A sign that is not found where the input ends, and by which a token is passed. -/
theorem cuts_ite {sign : State → Bool} [Shift α] {step step' other other' : Parse α}
    (hsign : ∀ {s c}, Framed f s c → f.rest.length < s.remaining → sign s = sign c)
    (hend : ∀ {c : State}, c.kind = .eof → sign c = false)
    (hpass : ∀ {setup : Setup} {s s' : State} {value : α}, setup.table = .standard → s.Ended →
      sign s → step setup s = .done value s' → s'.remaining < s.remaining)
    (h : CutsInside f n step step') (h' : Cuts f n other other') :
    Cuts f n (look sign >>= fun b => if b then step else other)
      (look sign >>= fun b => if b then step' else other') where
  framed {setup setup'} ht hsetup s c s' value hs hd hn := by
    change (if sign s then step else other) setup s = _ at hd
    change ((if sign c then step' else other') setup' c).Framed f value s'
    by_cases hr : f.rest.length < s.remaining
    · rw [← hsign hs hr]
      split at hd
      · rename_i hb
        rw [if_pos hb]
        exact h.framed ht hsetup hs hr hd hn
      · rename_i hb
        rw [if_neg hb]
        exact h'.framed ht hsetup hs hd hn
    · rw [hend (hs.outside (by omega)).1, if_neg Bool.false_ne_true]
      split at hd
      · rename_i hb
        have := hpass ht hs.ended hb hd
        omega
      · exact h'.framed ht hsetup hs hd hn

theorem hasTokens_of_sign {sign : State → Bool}
    (hend : ∀ {c : State}, c.kind = .eof → sign c = false) {s : State} (h : sign s) :
    s.hasTokens := by
  rw [State.hasTokens, bne_iff_ne]
  intro hk
  rw [hend hk] at h
  cases h

/-- A sign that is not found where the input ends, on one token. -/
theorem cuts_advance {sign : State → Bool} [Shift α] {next next' : Token → Parse α}
    {other other' : Parse α} (hk : ∀ token, Keeps (next token))
    (hsign : ∀ {s c}, Framed f s c → f.rest.length < s.remaining → sign s = sign c)
    (hend : ∀ {c : State}, c.kind = .eof → sign c = false)
    (h : ∀ token, Cuts f n (next (shift f token)) (next' token)) (h' : Cuts f n other other') :
    Cuts f n (look sign >>= fun b => if b then advance >>= next else other)
      (look sign >>= fun b => if b then advance >>= next' else other') :=
  cuts_ite hsign hend (fun _ he hb hd => advance_bind_passes he (hasTokens_of_sign hend hb) hd)
    (cutsInside_advance h) h'

theorem isAt_framed {kind : Token.Kind} {s c : State} (hs : Framed f s c)
    (hr : f.rest.length < s.remaining) : (s.kind == kind) = (c.kind == kind) := by
  rw [hs.kind hr]

theorem cutsInside_kind [Shift α] {next next' : Token.Kind → Parse α}
    (h : ∀ kind, CutsInside f n (next kind) (next' kind)) :
    CutsInside f n (look State.kind >>= next) (look State.kind >>= next') :=
  cutsInside_look (fun hs hr => hs.kind hr) h

theorem cutsInside_isAt [Shift α] {kind : Token.Kind} {next next' : Bool → Parse α}
    (h : ∀ b, CutsInside f n (next b) (next' b)) :
    CutsInside f n (isAt kind >>= next) (isAt kind >>= next') :=
  cutsInside_look (fun hs hr => isAt_framed hs hr) h

theorem isAt_end {kind : Token.Kind} (hk : kind ≠ .eof) {c : State} (hc : c.kind = .eof) :
    (c.kind == kind) = false := by
  rw [hc, beq_eq_false_iff_ne]
  exact hk.symm

instance (priority := high) (kind : Token.Kind) [hk : kind.Inner] [Shift α]
    {next next' : Token → Parse α} {other other' : Parse α} [hn : ∀ token, Keeps (next token)]
    [h : ∀ token, Cuts f n (next (shift f token)) (next' token)] [h' : Cuts f n other other'] :
    Cuts f n (isAt kind >>= fun b => if b then advance >>= next else other)
      (isAt kind >>= fun b => if b then advance >>= next' else other') :=
  cuts_advance hn isAt_framed (isAt_end hk.ne) h h'

instance (kind : Token.Kind) [hk : kind.Inner] : Cuts f n (eat kind) (eat kind) :=
  cuts_advance (fun _ => inferInstance) isAt_framed (isAt_end hk.ne) (fun _ => inferInstance)
    inferInstance

instance (kind : Token.Kind) [hk : kind.Inner] {step other : Parse α} [Keeps step]
    [hp : Passes other] : Passes (eat kind >>= fun b => if b then step else other) where
  passes {setup s s' value} ht he h := by
    obtain ⟨b, s₁, hb, h⟩ := bind_done.1 h
    obtain ⟨rfl, rfl⟩ := eat_done.1 hb
    by_cases hs : s.kind = kind
    · have := he.remaining_advance (State.hasTokens_of_kind hs hk.ne)
      rw [State.skip, if_pos hs, if_pos (beq_iff_eq.2 hs)] at h
      exact Nat.lt_of_le_of_lt (kept_of_done h).remaining_le this
    · rw [State.skip, if_neg hs, if_neg (mt beq_iff_eq.1 hs)] at h
      exact hp.passes ht he h

instance (word : String) : Cuts f n (eatWord word) (eatWord word) := by
  refine cuts_advance (fun _ => inferInstance) (fun hs hr => ?_) (fun {c} hc => ?_)
    (fun _ => inferInstance) inferInstance
  · rw [(hs.inside hr).1]
    rfl
  · have hc : c.current.kind = .eof := hc
    simp [Token.isWord, hc]

instance {sign sign' : Parse Bool} [Shift α] {step step' : Parse α} [Keeps sign] [Keeps step]
    [Cuts f n sign sign'] [Cuts f n step step'] :
    Cuts f n (optionally sign step) (optionally sign' step') := by
  unfold optionally
  infer_instance

instance {start start' : Nat} {shape shape' : Shape} [Same start (start' + f.offset)]
    [Same shape (shift f shape')] : Cuts f n (pushFrom start shape) (pushFrom start' shape') := by
  unfold pushFrom
  infer_instance

instance (kind : Token.Kind) [hk : kind.Inner] (error error' : Parse Error) :
    Cuts f n (expectOr kind error) (expectOr kind error') where
  framed {setup setup'} ht hsetup s c s' value hs hd hn := by
    obtain ⟨hs', rfl, rfl⟩ := expectOr_done.1 hd
    have := hs.ended.remaining_advance (State.hasTokens_of_kind hs' hk.ne)
    have hr : f.rest.length < s.remaining := by omega
    have hd' : expectOr kind error' setup' c = .done c.current c.advance :=
      expectOr_done.2 ⟨(hs.kind hr).symm.trans hs', rfl, rfl⟩
    rw [hd']
    exact .done (hs.inside hr).1 (hs.advance hr)

instance (kind : Token.Kind) [kind.Inner] : Cuts f n (expect kind) (expect kind) := by
  unfold expect; infer_instance

instance : Cuts f n name name where
  framed {setup setup'} ht hsetup s c s' value hs hd hn := by
    obtain ⟨hs', rfl, rfl⟩ := name_done.1 hd
    have := hs.ended.remaining_advance (State.hasTokens_of_isName hs')
    have hr : f.rest.length < s.remaining := by omega
    have hc := (hs.inside hr).1
    rw [hc] at hs'
    have hd' : name setup' c = .done c.name c.advance := name_done.2 ⟨hs', rfl, rfl⟩
    rw [hd', State.name, hc]
    exact .done rfl (hs.advance hr)

instance (kind : Token.Kind) [hk : kind.Inner] (error : Parse Error) :
    Passes (expectOr kind error) := passes_expectOr hk.ne error

instance (kind : Token.Kind) [hk : kind.Inner] : Passes (expect kind) := passes_expect hk.ne

/-! ## Names and lists -/

set_option synthInstance.maxSize 512

instance : Cuts f n path path := by
  unfold path
  infer_instance

instance : Passes path := by unfold path; infer_instance

instance (close : Token.Kind) [close.Inner] {element element' : Parse NodeId} [Keeps element]
    [∀ n, Cuts f n element element'] :
    Cuts f n (delimited close element) (delimited close element') := by
  unfold delimited
  infer_instance

/-- Where the piece ends, the items end too: another one would pass a token. -/
instance {item item' : Parse NodeId} [Keeps item] [hp : Passes item] [Cuts f n item item'] :
    Cuts f n (bracedItems item) (bracedItems item') := by
  unfold bracedItems
  have : Cuts f n (look (fun s => s.hasTokens && s.kind != .closeCurly) >>= fun b =>
      if b then (do return some (← item, true)) else return none)
    (look (fun s => s.hasTokens && s.kind != .closeCurly) >>= fun b =>
      if b then (do return some (← item', true)) else return none) := by
    refine cuts_ite (fun hs hr => ?_) (fun {c} hc => ?_) (fun ht he _ hd => ?_)
      (Cuts.inside inferInstance) inferInstance
    · rw [hs.kind hr, hs.hasTokens hr, (hs.inside hr).2]
    · simp [State.hasTokens, hc]
    · exact passes (item >>= fun id => pure (some (id, true))) ht he hd
  infer_instance

end

end Parse
end Smaug
