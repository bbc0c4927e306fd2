import Mathlib
import Smaug.Proofs.Parse.Cut.Basic
import Smaug.Proofs.Tree.Ending
import Smaug.Proofs.Tree.Renumbered

/-! # Steps on a piece that is put into an input

A parse of a piece of input by itself, and a parse of an input that holds the same tokens somewhere:
behind other tokens and nodes, deeper in nested constructs, and with more tokens after it.  The
second does what the first has done.  It meets a token that closes a construct where the piece
ends, and only a step that comes to the end of the piece can be told by that from what it was alone.
-/

namespace Smaug

/-- Whether a token can only follow a construct: no construct starts with it or goes on with it. -/
def Token.Kind.endsConstruct (kind : Token.Kind) : Bool :=
  [.eof, .closeCurly, .closeBracket, .closeParen, .comma].contains kind

namespace Parse

open Grammar

/-- Where a piece is put: the nodes before it, the nesting around it and the tokens after it. -/
structure Site where
  before : List Node
  depth : Nat
  next : Token
  more : List Token
  closing : next.kind.endsConstruct

namespace Site

def Ends (f : Site) : Prop := f.next.kind = .closeCurly ∨ f.next.kind = .eof

def continues (f : Site) : Bool :=
  continuesAsAttributes .standard { current := f.next, ahead := f.more }

structure Suits (f : Site) (setup setup' : Setup) : Prop where
  table : setup.table = .standard
  table_piece : setup'.table = .standard
  maxDepth : setup'.maxDepth + f.depth ≤ setup.maxDepth

theorem ne_of_not_closing (f : Site) {kind : Token.Kind} (hk : kind.endsConstruct = false) :
    f.next.kind ≠ kind := by
  intro h
  have hc := f.closing
  rw [h, hk] at hc
  cases hc

end Site

/-! ## Values -/

class Renumbered (α : Type) where
  /-- A value without places in the source, and with other numbers for the nodes. -/
  renumbered : (NodeId → NodeId) → α → α

export Renumbered (renumbered)

instance : Renumbered Bool := ⟨fun _ value => value⟩
instance : Renumbered (Option String) := ⟨fun _ value => value⟩
instance : Renumbered Token.Kind := ⟨fun _ value => value⟩
instance : Renumbered NodeId := ⟨fun number id => number id⟩
instance : Renumbered Span := ⟨fun _ _ => default⟩
instance : Renumbered Token := ⟨fun _ => Token.bare⟩
instance : Renumbered Name := ⟨fun _ => Name.bare⟩
instance : Renumbered Path := ⟨fun _ => Path.bare⟩
instance : Renumbered External := ⟨fun _ => External.bare⟩
instance : Renumbered CasePattern := ⟨CasePattern.renumbered⟩
instance : Renumbered Body := ⟨Body.renumbered⟩
instance : Renumbered Shape := ⟨Shape.renumbered⟩
instance [Renumbered α] : Renumbered (Option α) := ⟨fun number => Option.map (renumbered number)⟩
instance [Renumbered α] : Renumbered (List α) := ⟨fun number => List.map (renumbered number)⟩
instance [Renumbered α] [Renumbered β] : Renumbered (α × β) :=
  ⟨fun number value => (renumbered number value.1, renumbered number value.2)⟩

def Like [Renumbered α] (f : Site) (value value' : α) : Prop :=
  renumbered id value = renumbered (· + f.before.length) value'

/-! ## States -/

theorem State.advance_of_ahead {s : State} (ht : s.hasTokens) (ha : s.ahead ≠ []) :
    s.advance.tokens = s.ahead ∧ s.advance.depth = s.depth := by
  unfold State.advance
  split
  · rename_i hs
    rw [if_pos ht, hs]
    exact ⟨rfl, rfl⟩
  · contradiction

/-- `s` stands in the input where `c` stands in the piece. -/
structure Embedded (f : Site) (s c : State) : Prop where
  tokens : ∃ front front' stop, s.tokens = front ++ f.next :: f.more ∧
    c.tokens = front' ++ [stop] ∧ stop.kind = .eof ∧ (∀ token ∈ front', token.kind ≠ .eof) ∧
    front.map Token.bare = front'.map Token.bare
  nodes : ∃ added, s.nodes.toList = f.before ++ added ∧
    added.map (·.shape.bare) = c.nodes.toList.map (·.shape.renumbered (· + f.before.length))
  depth : s.depth = c.depth + f.depth

namespace Embedded

variable {f : Site} {s c : State}

theorem ended_piece (h : Embedded f s c) : c.Ended := by
  obtain ⟨front, front', stop, -, hc, hk, -⟩ := h.tokens
  exact ⟨stop, by simp [hc], hk⟩

theorem size_nodes (h : Embedded f s c) : s.nodes.size = c.nodes.size + f.before.length := by
  obtain ⟨added, hn, ha⟩ := h.nodes
  have hn := congrArg List.length hn
  have ha := congrArg List.length ha
  simp only [Array.length_toList, List.length_append, List.length_map] at hn ha
  omega

/-- Within the piece the current token is the same, and there is one after it. -/
theorem inside (h : Embedded f s c) (hc : c.hasTokens) :
    ∃ token token' front front' stop, s.current = token ∧ c.current = token' ∧
      token.bare = token'.bare ∧ s.ahead = front ++ f.next :: f.more ∧ c.ahead = front' ++ [stop] ∧
      stop.kind = .eof ∧ (∀ token ∈ front', token.kind ≠ .eof) ∧
      front.map Token.bare = front'.map Token.bare := by
  obtain ⟨front, front', stop, hs, hct, hk, ht, hf⟩ := h.tokens
  cases front' with
  | nil =>
    obtain ⟨hcur, -⟩ := List.cons_eq_cons.1 (show c.current :: c.ahead = _ from hct)
    simp [State.hasTokens, State.kind, hcur, hk] at hc
  | cons token' front' =>
    cases front with
    | nil => simp at hf
    | cons token front =>
      obtain ⟨hs, hsa⟩ := List.cons_eq_cons.1 (show s.current :: s.ahead = _ from hs)
      obtain ⟨hct, hca⟩ := List.cons_eq_cons.1 (show c.current :: c.ahead = _ from hct)
      obtain ⟨hb, hf⟩ := List.cons_eq_cons.1 hf
      exact ⟨token, token', front, front', stop, hs, hct, hb, hsa, hca, hk,
        fun token h => ht token (List.mem_cons_of_mem _ h), hf⟩

theorem current (h : Embedded f s c) (hc : c.hasTokens) : Like f s.current c.current := by
  obtain ⟨token, token', -, -, -, hs, hc, hb, -⟩ := h.inside hc
  rw [hs, hc]
  exact hb

theorem kind (h : Embedded f s c) (hc : c.hasTokens) : s.kind = c.kind := by
  have hb : s.current.bare = c.current.bare := h.current hc
  exact (congrArg Token.kind hb :)

theorem isWord (h : Embedded f s c) (hc : c.hasTokens) (word : String) :
    s.current.isWord word = c.current.isWord word := by
  have hb : s.current.bare = c.current.bare := h.current hc
  exact (congrArg (Token.isWord · word) hb :)

/-- At the end of the piece the input goes on with what stands after it. -/
theorem outside (h : Embedded f s c) (hc : c.kind = .eof) :
    s.current = f.next ∧ s.ahead = f.more ∧ c.ahead = [] := by
  obtain ⟨front, front', stop, hs, hct, hk, ht, hf⟩ := h.tokens
  cases front' with
  | nil =>
    obtain ⟨-, ha⟩ := List.cons_eq_cons.1 (show c.current :: c.ahead = _ from hct)
    obtain rfl : front = [] := by simpa using hf
    obtain ⟨hs, hsa⟩ := List.cons_eq_cons.1 (show s.current :: s.ahead = _ from hs)
    exact ⟨hs, hsa, ha⟩
  | cons token' front' =>
    obtain ⟨hct, -⟩ := List.cons_eq_cons.1 (show c.current :: c.ahead = _ from hct)
    exact absurd (hct ▸ hc) (ht token' List.mem_cons_self)

theorem closing (h : Embedded f s c) (hc : c.kind = .eof) : s.kind.endsConstruct := by
  rw [State.kind, (h.outside hc).1]
  exact f.closing

/-- No construct goes on at the end of the piece. -/
theorem ne_of_not_closing (h : Embedded f s c) (hc : c.kind = .eof) {kind : Token.Kind}
    (hk : kind.endsConstruct = false) : s.kind ≠ kind := by
  rw [State.kind, (h.outside hc).1]
  exact f.ne_of_not_closing hk

theorem advance (h : Embedded f s c) (hc : c.hasTokens) : Embedded f s.advance c.advance := by
  have hs : s.hasTokens := by rwa [State.hasTokens, h.kind hc]
  obtain ⟨-, -, front, front', stop, -, -, -, hsa, hca, hk, ht, hf⟩ := h.inside hc
  obtain ⟨hst, hsd⟩ := State.advance_of_ahead hs (by simp [hsa])
  obtain ⟨hct, hcd⟩ := State.advance_of_ahead hc (by simp [hca])
  exact ⟨⟨front, front', stop, hst.trans hsa, hct.trans hca, hk, ht, hf⟩,
    by simpa using h.nodes, by rw [hsd, hcd, h.depth]⟩

theorem push (h : Embedded f s c) {shape shape' : Shape} (hs : Like f shape shape')
    (span span' : Span) : Embedded f (s.push ⟨shape, span⟩) (c.push ⟨shape', span'⟩) where
  tokens := h.tokens
  nodes := by
    obtain ⟨added, hn, ha⟩ := h.nodes
    refine ⟨added ++ [⟨shape, span⟩], by simp [State.push, hn], ?_⟩
    have hs : shape.bare = shape'.renumbered (· + f.before.length) := hs
    simp [State.push, ha, hs]
  depth := h.depth

theorem deeper (h : Embedded f s c) : Embedded f s.deeper c.deeper where
  tokens := h.tokens
  nodes := h.nodes
  depth := by
    have := h.depth
    simp only [State.deeper]
    omega

theorem leave (h : Embedded f s c) (hd : 0 < c.depth) : Embedded f s.leave c.leave where
  tokens := h.tokens
  nodes := h.nodes
  depth := by
    have := h.depth
    simp only [State.leave]
    omega

theorem getElem? (h : Embedded f s c) {i : NodeId} {node' : Node} (hn : c.nodes[i]? = some node') :
    ∃ node, s.nodes[i + f.before.length]? = some node ∧
      node.shape.bare = node'.shape.renumbered (· + f.before.length) := by
  obtain ⟨added, hs, ha⟩ := h.nodes
  rw [← Array.getElem?_toList] at hn
  have ha := congrArg (·[i]?) ha
  simp only [List.getElem?_map, hn, Option.map_some] at ha
  obtain ⟨node, hi, hshape⟩ := Option.map_eq_some_iff.1 ha
  refine ⟨node, ?_, hshape⟩
  rw [← Array.getElem?_toList, hs, List.getElem?_append_right (Nat.le_add_left _ _),
    Nat.add_sub_cancel, hi]

end Embedded

/-- At the end of the input nothing is passed any more. -/
theorem Kept.kind_eof {c c' : State} (h : Kept c c') (hc : c.kind = .eof) : c'.kind = .eof := by
  obtain ⟨passed, ht, hp, -⟩ := h.tokens
  cases passed with
  | nil =>
    obtain ⟨hcur, -⟩ := List.cons_eq_cons.1 (show c.current :: c.ahead = _ from ht)
    rwa [State.kind, ← hcur]
  | cons token passed =>
    obtain ⟨hcur, -⟩ := List.cons_eq_cons.1 (show c.current :: c.ahead = _ from ht)
    exact absurd (hcur ▸ hc) (hp token List.mem_cons_self)

theorem State.hasTokens_of_ne {c : State} (h : c.kind ≠ .eof) : c.hasTokens := bne_iff_ne.2 h

theorem State.hasTokens_of_passed {c c' : State} (h : c'.remaining < c.remaining)
    (hk : Kept c c') : c.hasTokens := by
  refine hasTokens_of_ne fun hc => ?_
  obtain ⟨passed, ht, hp, -⟩ := hk.tokens
  cases passed with
  | nil =>
    rw [← length_tokens, ← length_tokens, ht] at h
    exact Nat.lt_irrefl _ h
  | cons token passed =>
    obtain ⟨hcur, -⟩ := List.cons_eq_cons.1 (show c.current :: c.ahead = _ from ht)
    exact hp token List.mem_cons_self (hcur ▸ hc)

/-! ## What a step yields -/

inductive Outcome.Yields (P : α → State → Prop) : Outcome α → Prop
  | done (h : P a s) : Outcome.Yields P (.done a s)
  | exhausted : Outcome.Yields P (.stopped .exhausted s)

section
variable {P : α → State → Prop} {Q : β → State → Prop} {setup : Setup} {s : State}

theorem Outcome.Yields.mono {P' : α → State → Prop} {outcome : Outcome α} (h : outcome.Yields P)
    (hp : ∀ value s, P value s → P' value s) : outcome.Yields P' := by
  cases h with
  | done h => exact .done (hp _ _ h)
  | exhausted => exact .exhausted

theorem bind_yields {step : Parse α} {next : α → Parse β} (h : (step setup s).Yields P)
    (hn : ∀ value s', P value s' → (next value setup s').Yields Q) :
    ((step >>= next) setup s).Yields Q := by
  change (Parse.bind step next setup s).Yields Q
  unfold Parse.bind
  generalize step setup s = outcome at h
  cases h with
  | done h => exact hn _ _ h
  | exhausted => exact .exhausted

theorem inside_yields {step : Parse α} (delimiter : Char) (construct : String) (opening : Span)
    (h : (step setup s).Yields P) :
    (inside delimiter construct opening step setup s).Yields P := by
  unfold inside mapError
  generalize step setup s = outcome at h
  cases h with
  | done h => exact .done h
  | exhausted => exact .exhausted

theorem nested_yields {step : Parse α} (hd : s.depth < setup.maxDepth)
    (h : (step setup s.deeper).Yields fun value s' => P value s'.leave) :
    (nested step setup s).Yields P := by
  rw [nested_apply, if_pos hd]
  generalize step setup s.deeper = outcome at h
  cases h with
  | done h => exact .done h
  | exhausted => exact .exhausted

end

/-- What a step has done in the piece another does in the input, where `Q` holds of what it came to
if it came to the end of the piece. -/
class Embeds [Renumbered α] (f : Site) (Q : α → State → Prop) (step step' : Parse α) : Prop where
  yields {setup setup' : Setup} (hsetup : f.Suits setup setup') {s c c' : State} {value' : α}
    (hs : Embedded f s c) (hd : step' setup' c = .done value' c')
    (hq : c'.kind = .eof → Q value' c') :
    (step setup s).Yields fun value s' => Like f value value' ∧ Embedded f s' c'

def When (p : Prop) : α → State → Prop := fun _ _ => p

structure EmbedsInside [Renumbered α] (f : Site) (Q : α → State → Prop) (step step' : Parse α) :
    Prop where
  yields {setup setup' : Setup} (hsetup : f.Suits setup setup') {s c c' : State} {value' : α}
    (hs : Embedded f s c) (hc : c.hasTokens) (hd : step' setup' c = .done value' c')
    (hq : c'.kind = .eof → Q value' c') :
    (step setup s).Yields fun value s' => Like f value value' ∧ Embedded f s' c'

section
variable [Renumbered α] [Renumbered β] {f : Site} {P : α → State → Prop} {Q : β → State → Prop}
  {step step' : Parse α}

theorem Embeds.mono {P' : α → State → Prop} (h : Embeds f P step step')
    (hp : ∀ value c, P' value c → P value c) : Embeds f P' step step' where
  yields hsetup _ _ _ _ hs hd hq := h.yields hsetup hs hd fun hc => hp _ _ (hq hc)

theorem EmbedsInside.mono {P' : α → State → Prop} (h : EmbedsInside f P step step')
    (hp : ∀ value c, P' value c → P value c) : EmbedsInside f P' step step' where
  yields hsetup _ _ _ _ hs hc hd hq := h.yields hsetup hs hc hd fun hk => hp _ _ (hq hk)

theorem Embeds.inside (h : Embeds f P step step') : EmbedsInside f P step step' where
  yields hsetup _ _ _ _ hs _ hd hq := h.yields hsetup hs hd hq

/-- A step that passes a token starts within the piece. -/
theorem EmbedsInside.of_passes [Keeps step'] [Passes step'] (h : EmbedsInside f P step step') :
    Embeds f P step step' where
  yields hsetup _ _ _ _ hs hd hq :=
    have hlt := passes step' hsetup.table_piece hs.ended_piece hd
    h.yields hsetup hs (State.hasTokens_of_passed hlt (kept_of_done hd)) hd hq

/-- A step that ends within the piece starts within it. -/
theorem EmbedsInside.of_keeps [Keeps step'] (h : EmbedsInside f (When False) step step') :
    Embeds f (When False) step step' where
  yields hsetup _ _ _ _ hs hd hq :=
    h.yields hsetup hs (State.hasTokens_of_ne fun hc => hq ((kept_of_done hd).kind_eof hc)) hd
      fun hc => (hq hc).elim

theorem Embeds.bind [Keeps step'] {next next' : α → Parse β} (h : Embeds f P step step')
    (hn : ∀ a a', Like f a a' → Embeds f Q (next a) (next' a'))
    (hp : ∀ a {setup : Setup} {c c' : State} {value : β}, setup.table = .standard → c.Ended →
      c.kind = .eof → next' a setup c = .done value c' → (c'.kind = .eof → Q value c') → P a c) :
    Embeds f Q (step >>= next) (step' >>= next') where
  yields {setup setup'} hsetup {s c c' value'} hs hd hq := by
    obtain ⟨a', c₁, ha, hd⟩ := bind_done.1 hd
    have he := hs.ended_piece.grow (kept_of_done ha).toGrown
    refine bind_yields (h.yields hsetup hs ha fun hc => hp _ hsetup.table_piece he hc hd hq) ?_
    rintro a s₁ ⟨hl, hs₁⟩
    exact (hn a a' hl).yields hsetup hs₁ hd hq

theorem EmbedsInside.bind [Keeps step'] {next next' : α → Parse β} (h : EmbedsInside f P step step')
    (hn : ∀ a a', Like f a a' → Embeds f Q (next a) (next' a'))
    (hp : ∀ a {setup : Setup} {c c' : State} {value : β}, setup.table = .standard → c.Ended →
      c.kind = .eof → next' a setup c = .done value c' → (c'.kind = .eof → Q value c') → P a c) :
    EmbedsInside f Q (step >>= next) (step' >>= next') where
  yields {setup setup'} hsetup {s c c' value'} hs hc hd hq := by
    obtain ⟨a', c₁, ha, hd⟩ := bind_done.1 hd
    have he := hs.ended_piece.grow (kept_of_done ha).toGrown
    refine bind_yields (h.yields hsetup hs hc ha fun hc => hp _ hsetup.table_piece he hc hd hq) ?_
    rintro a s₁ ⟨hl, hs₁⟩
    exact (hn a a' hl).yields hsetup hs₁ hd hq

/-- Where the rest passes a token, the first step ends within the piece. -/
theorem embeds_next {next next' : α → Parse β} [Keeps step'] (h : Embeds f (When False) step step')
    (hp : ∀ a, Passes (next' a)) (hk : ∀ a, Keeps (next' a))
    (hn : ∀ a a', Like f a a' → Embeds f Q (next a) (next' a')) :
    Embeds f Q (step >>= next) (step' >>= next') :=
  h.bind hn fun a _ _ _ _ ht he hc hd _ => by
    have hlt := (hp a).passes ht he hd
    have hts := State.hasTokens_of_passed hlt (@kept_of_done _ _ (hk a) _ _ _ _ hd)
    simp [State.hasTokens, hc] at hts

/-- Where the rest passes nothing at the end of the piece, it is there if the whole is. -/
theorem embeds_bind {p : Prop} {next next' : α → Parse β} [Keeps step']
    (h : Embeds f (When p) step step') (hk : ∀ a, Keeps (next' a))
    (hn : ∀ a a', Like f a a' → Embeds f (When p) (next a) (next' a')) :
    Embeds f (When p) (step >>= next) (step' >>= next') :=
  h.bind hn fun a _ _ _ _ _ _ hc hd hq =>
    hq ((@kept_of_done _ _ (hk a) _ _ _ _ hd).kind_eof hc)

/-- The step before the last ones, and what these say of what it comes to. -/
theorem embeds_last {next next' : α → Parse β} [Keeps step'] (h : Embeds f P step step')
    (hk : ∀ a, Keeps (next' a)) (hn : ∀ a a', Like f a a' → Embeds f Q (next a) (next' a'))
    (hp : ∀ a {setup : Setup} {c c' : State} {value : β}, setup.table = .standard →
      c.kind = .eof → next' a setup c = .done value c' → Q value c' → P a c) :
    Embeds f Q (step >>= next) (step' >>= next') :=
  h.bind hn fun a _ _ _ _ ht _ hc hd hq =>
    hp a ht hc hd (hq ((@kept_of_done _ _ (hk a) _ _ _ _ hd).kind_eof hc))

theorem embeds_pure {a a' : α} (h : Like f a a') : Embeds f P (pure a) (pure a') where
  yields _ _ _ _ _ hs hd _ := by
    obtain ⟨rfl, rfl⟩ := pure_done.1 hd
    exact .done ⟨h, hs⟩

theorem embeds_look {g g' : State → α} (h : ∀ {s c}, Embedded f s c → Like f (g s) (g' c)) :
    Embeds f P (look g) (look g') where
  yields _ _ _ _ _ hs hd _ := by
    obtain ⟨rfl, rfl⟩ := look_done.1 hd
    exact .done ⟨h hs, hs⟩

theorem embedsInside_look {g g' : State → α}
    (h : ∀ {s c}, Embedded f s c → c.hasTokens → Like f (g s) (g' c)) :
    EmbedsInside f P (look g) (look g') where
  yields _ _ _ _ _ hs hc hd _ := by
    obtain ⟨rfl, rfl⟩ := look_done.1 hd
    exact .done ⟨h hs hc, hs⟩

/-! ## Steps by themselves -/

instance (priority := high) {next next' : α → Parse β} [Keeps step'] [hp : ∀ a, Passes (next' a)]
    [hk : ∀ a, Keeps (next' a)] [h : Embeds f (When False) step step']
    [hn : ∀ pair : Pair (Like f (α := α)), Embeds f Q (next pair.left) (next' pair.right)] :
    Embeds f Q (step >>= next) (step' >>= next') :=
  embeds_next h hp hk fun a a' hl => hn ⟨a, a', hl⟩

instance {p : Prop} {next next' : α → Parse β} [Keeps step'] [hk : ∀ a, Keeps (next' a)]
    [h : Embeds f (When p) step step']
    [hn : ∀ pair : Pair (Like f (α := α)), Embeds f (When p) (next pair.left) (next' pair.right)] :
    Embeds f (When p) (step >>= next) (step' >>= next') :=
  embeds_bind h hk fun a a' hl => hn ⟨a, a', hl⟩

instance {next next' : α → Parse β} [Keeps step'] [h : Embeds f (When True) step step']
    [hn : ∀ pair : Pair (Like f (α := α)), Embeds f Q (next pair.left) (next' pair.right)] :
    Embeds f Q (step >>= next) (step' >>= next') :=
  h.bind (fun a a' hl => hn ⟨a, a', hl⟩) fun _ _ _ _ _ _ _ _ _ _ => trivial

instance {a a' : α} [h : Related (Like f) a a'] : Embeds f P (pure a) (pure a') :=
  embeds_pure h.holds

instance {error : Parse Error} : Embeds f P step (error >>= fun e => refuse e) where
  yields _ _ _ _ _ _ hd _ := by simp [bind_done, refuse_done] at hd

instance {c : Prop} [Decidable c] {other other' : Parse α} [h : Embeds f P step step']
    [h' : Embeds f P other other'] :
    Embeds f P (if c then step else other) (if c then step' else other') := by
  split <;> assumption

instance {b b' : Bool} [hb : Related (Like f) b b'] {other other' : Parse α}
    [h : Embeds f P step step'] [h' : Embeds f P other other'] :
    Embeds f P (if b then step else other) (if b' then step' else other') := by
  obtain rfl : b = b' := hb.holds
  infer_instance

instance {shape shape' : Shape} {span span' : Span} [h : Related (Like f) shape shape']
    {P : NodeId → State → Prop} : Embeds f P (push shape span) (push shape' span') where
  yields _ _ _ _ _ hs hd _ := by
    obtain ⟨rfl, rfl⟩ := push_done.1 hd
    exact .done ⟨hs.size_nodes, hs.push h.holds span span'⟩

instance {i i' : NodeId} [h : Related (Like f) i i'] {P : Span → State → Prop} :
    Embeds f P (spanOf i) (spanOf i') where
  yields {setup _} _ s _ _ _ hs hd _ := by
    obtain ⟨node', hn', rfl, rfl⟩ := spanOf_done.1 hd
    obtain ⟨node, hn, -⟩ := hs.getElem? hn'
    have hi : i = i' + f.before.length := h.holds
    have hd : spanOf i setup s = .done node.span s := spanOf_done.2 ⟨node, hi ▸ hn, rfl, rfl⟩
    rw [hd]
    exact .done ⟨rfl, hs⟩

instance (delimiter : Char) (construct : String) (opening opening' : Span)
    [h : Embeds f P step step'] :
    Embeds f P (Parse.inside delimiter construct opening step)
      (Parse.inside delimiter construct opening' step') where
  yields hsetup _ _ _ _ hs hd hq :=
    inside_yields delimiter construct opening (h.yields hsetup hs (inside_done.1 hd) hq)

theorem embedsInside_ite {c : Prop} [Decidable c] {other other' : Parse α}
    (h : EmbedsInside f P step step') (h' : EmbedsInside f P other other') :
    EmbedsInside f P (if c then step else other) (if c then step' else other') := by
  split <;> assumption

theorem embedsInside_nested (hk : Keeps step') {Q : α → State → Prop} (h : EmbedsInside f P step step')
    (hp : ∀ value c, Q value c.leave → P value c) :
    EmbedsInside f Q (nested step) (nested step') where
  yields {setup setup'} hsetup {s c c' value'} hs hc hd hq := by
    obtain ⟨hlt, c₁, hin, rfl⟩ := nested_done.1 hd
    have hd₁ : c₁.depth = c.depth + 1 := (kept_of_done hin).depth
    have hdepth := hs.depth
    have hmax := hsetup.maxDepth
    refine nested_yields (by omega) ?_
    refine (h.yields hsetup hs.deeper hc hin fun hk => hp _ _ (hq hk)).mono ?_
    rintro value s' ⟨hl, hs'⟩
    exact ⟨hl, hs'.leave (by omega)⟩

theorem embedsInside_look_bind {γ : Type} [Renumbered γ] {g g' : State → γ}
    {next next' : γ → Parse α}
    (h : ∀ {s c}, Embedded f s c → c.hasTokens → Like f (g s) (g' c))
    (hn : ∀ a a', Like f a a' → EmbedsInside f P (next a) (next' a')) :
    EmbedsInside f P (look g >>= next) (look g' >>= next') where
  yields {setup setup'} hsetup {s c c' value'} hs hc hd hq := by
    obtain ⟨_, _, hl, hd⟩ := bind_done.1 hd
    obtain ⟨rfl, rfl⟩ := look_done.1 hl
    exact (hn _ _ (h hs hc)).yields hsetup hs hc hd hq

theorem embedsInside_kind {next next' : Token.Kind → Parse α}
    (hn : ∀ kind, EmbedsInside f P (next kind) (next' kind)) :
    EmbedsInside f P (look State.kind >>= next) (look State.kind >>= next') :=
  embedsInside_look_bind Embedded.kind fun kind kind' hl => by
    obtain rfl : kind = kind' := hl
    exact hn kind

theorem embedsInside_isAt {kind : Token.Kind} {next next' : Bool → Parse α}
    (hn : ∀ b, EmbedsInside f P (next b) (next' b)) :
    EmbedsInside f P (isAt kind >>= next) (isAt kind >>= next') :=
  embedsInside_look_bind (fun hs hc => by rw [hs.kind hc]; rfl) fun b b' hl => by
    obtain rfl : b = b' := hl
    exact hn b

theorem embedsInside_advance {next next' : Token → Parse α}
    (hn : ∀ token token', Like f token token' → Embeds f P (next token) (next' token')) :
    EmbedsInside f P (advance >>= next) (advance >>= next') where
  yields {setup setup'} hsetup {s c c' value'} hs hc hd hq := by
    obtain ⟨_, _, ha, hd⟩ := bind_done.1 hd
    obtain ⟨rfl, rfl⟩ := advance_done.1 ha
    exact (hn _ _ (hs.current hc)).yields hsetup (hs.advance hc) hd hq

theorem embedsInside_given {next next' : Table → Parse α}
    (h : EmbedsInside f P (next .standard) (next' .standard)) :
    EmbedsInside f P (given Setup.table >>= next) (given Setup.table >>= next') where
  yields {setup setup'} hsetup {s c c' value'} hs hc hd hq := by
    change (next setup.table setup s).Yields _
    change next' setup'.table setup' c = _ at hd
    rw [hsetup.table_piece] at hd
    rw [hsetup.table]
    exact h.yields hsetup hs hc hd hq

/-! ## Loops -/

instance : Renumbered (Turn α β) where
  renumbered number
    | .again a => .again (renumbered number a)
    | .finish b => .finish (renumbered number b)

theorem Like.again {a a' : α} (h : Like f a a') : Like f (Turn.again a : Turn α β) (.again a') :=
  congrArg Turn.again h

theorem Like.finish {b b' : β} (h : Like f b b') : Like f (Turn.finish b : Turn α β) (.finish b') :=
  congrArg Turn.finish h

theorem embeds_iterate {turn turn' : α → Parse (Turn α β)} [∀ a, Keeps (turn' a)]
    {R : Turn α β → State → Prop}
    (h : ∀ a a', Like f a a' → Embeds f R (turn a) (turn' a'))
    (hagain : ∀ a turns {setup : Setup} {c c' : State} {value : β}, setup.table = .standard →
      c.kind = .eof → iterate turn' turns a setup c = .done value c' → Q value c' →
      R (.again a) c)
    (hfinish : ∀ b c, Q b c → R (.finish b) c) (turns turns' : Nat) {a a' : α} (ha : Like f a a') :
    Embeds f Q (iterate turn turns a) (iterate turn' turns' a') := by
  induction turns' generalizing turns a a' with
  | zero => exact ⟨fun _ _ _ _ _ _ hd _ => by cases hd⟩
  | succ turns' ih =>
    cases turns with
    | zero => exact ⟨fun _ _ _ _ _ _ _ _ => .exhausted⟩
    | succ turns =>
      refine (h a a' ha).bind (fun result result' hl => ?_)
        fun result setup c c' value ht he hc hd hq => ?_
      · match result, result', hl with
        | .again a, .again a', hl => exact ih turns (Turn.again.inj hl)
        | .finish b, .finish b', hl => exact embeds_pure (Turn.finish.inj hl)
      · match result with
        | .again a =>
          have : Keeps (iterate turn' turns' a) := keeps_iterate turns' a
          exact hagain a turns' ht hc hd (hq ((kept_of_done hd).kind_eof hc))
        | .finish b =>
          obtain ⟨rfl, rfl⟩ := pure_done.1 hd
          exact hfinish _ _ (hq hc)

theorem embeds_loop {turn turn' : α → Parse (Turn α β)} [∀ a, Keeps (turn' a)]
    {R : Turn α β → State → Prop}
    (h : ∀ a a', Like f a a' → Embeds f R (turn a) (turn' a'))
    (hagain : ∀ a turns {setup : Setup} {c c' : State} {value : β}, setup.table = .standard →
      c.kind = .eof → iterate turn' turns a setup c = .done value c' → Q value c' →
      R (.again a) c)
    (hfinish : ∀ b c, Q b c → R (.finish b) c) {a a' : α} (ha : Like f a a') :
    Embeds f Q (loop turn a) (loop turn' a') where
  yields hsetup s c _ _ hs hd hq :=
    (embeds_iterate h hagain hfinish (s.remaining + 1) (c.remaining + 1) ha).yields hsetup hs hd hq

theorem Like.cons {a a' : α} {as as' : List α} (h : Like f a a') (hs : Like f as as') :
    Like f (a :: as) (a' :: as') := congrArg₂ List.cons h hs

theorem Like.reverse {as as' : List α} (h : Like f as as') : Like f as.reverse as'.reverse := by
  have h : as.map (renumbered id) = as'.map (renumbered _) := h
  change as.reverse.map (renumbered id) = as'.reverse.map (renumbered _)
  rw [List.map_reverse, h, List.map_reverse]

instance {p : Prop} {step step' : Parse (Option (α × Bool))} [Keeps step']
    [h : Embeds f (When p) step step'] : Embeds f (When p) (collect step) (collect step') := by
  have hk (items : List α) : Keeps (do
      match ← step' with
      | none => return Turn.finish items.reverse
      | some (item, true) => return .again (item :: items)
      | some (item, false) => return .finish (item :: items).reverse) :=
    keeps_bind step' fun item => by split <;> infer_instance
  refine embeds_loop (R := When p) (fun items items' hi => ?_)
    (fun _ _ _ _ _ _ _ _ _ hq => hq) (fun _ _ hq => hq) rfl
  refine embeds_bind h (fun item => by split <;> infer_instance) fun item item' hl => ?_
  match item, item', hl with
  | none, none, _ => exact embeds_pure hi.reverse.finish
  | some (item, more), some (item', more'), hl =>
    have hitem : Like f item item' := congrArg Prod.fst (Option.some.inj hl)
    obtain rfl : more = more' := congrArg Prod.snd (Option.some.inj hl)
    cases more with
    | true => exact embeds_pure (hitem.cons hi).again
    | false => exact embeds_pure (hitem.cons hi).reverse.finish

end

/-! ## Tokens and nodes -/

section
variable {f : Site}

instance {P : Span → State → Prop} :
    Embeds f P (look (·.current.span)) (look (·.current.span)) := embeds_look fun _ => rfl

instance {start start' : Nat} {P : Span → State → Prop} :
    Embeds f P (look (·.spanFrom start)) (look (·.spanFrom start')) := embeds_look fun _ => rfl

instance (kind : Token.Kind) : Embeds f (When False) (isAt kind) (isAt kind) :=
  (embedsInside_look fun hs hc => by rw [hs.kind hc]; rfl).of_keeps

/-- Where a construct starts is seen in its span only. -/
instance (priority := high) [Renumbered α] {P : α → State → Prop} {next next' : Nat → Parse α}
    [hn : ∀ start start', Embeds f P (next start) (next' start')] :
    Embeds f P (look (·.current.span.start) >>= next) (look (·.current.span.start) >>= next') where
  yields hsetup _ _ _ _ hs hd hq := (hn _ _).yields hsetup hs hd hq

theorem Embedded.skip {s c : State} (h : Embedded f s c) (hc : c.hasTokens) (kind : Token.Kind) :
    Embedded f (s.skip kind) (c.skip kind) := by
  unfold State.skip
  rw [h.kind hc]
  split
  · exact h.advance hc
  · exact h

theorem embedsInside_eat {P : Bool → State → Prop} (kind : Token.Kind) :
    EmbedsInside f P (eat kind) (eat kind) where
  yields {setup setup'} hsetup {s c c' value'} hs hc hd _ := by
    obtain ⟨rfl, rfl⟩ := eat_done.1 hd
    have hd : eat kind setup s = .done (s.kind == kind) (s.skip kind) := eat_done.2 ⟨rfl, rfl⟩
    rw [hd]
    exact .done ⟨by rw [hs.kind hc]; rfl, hs.skip hc kind⟩

instance (kind : Token.Kind) : Embeds f (When False) (eat kind) (eat kind) :=
  (embedsInside_eat kind).of_keeps

/-- A token that ends a construct, or else another is passed. -/
instance (priority := high) [Renumbered α] {P : α → State → Prop} (kind : Token.Kind) [kind.Inner]
    {step step' other other' : Parse α} [Keeps step'] [Keeps other'] [Passes other']
    [h : Embeds f P step step'] [h' : Embeds f P other other'] :
    Embeds f P (eat kind >>= fun b => if b then step else other)
      (eat kind >>= fun b => if b then step' else other') := by
  refine EmbedsInside.of_passes ((embedsInside_eat (P := When True) kind).bind (fun b b' hb => ?_)
    fun _ _ _ _ _ _ _ _ _ _ => trivial)
  obtain rfl : b = b' := hb
  split <;> assumption

/-- A token that a construct goes on with is not there where the piece ends. -/
theorem embeds_eat {P : Bool → State → Prop} {kind : Token.Kind} (hk : kind.endsConstruct = false) :
    Embeds f P (eat kind) (eat kind) where
  yields {setup setup'} hsetup {s c c' value'} hs hd hq := by
    by_cases hc : c.kind = .eof
    · obtain ⟨rfl, rfl⟩ := eat_done.1 hd
      have hne : c.kind ≠ kind := by
        rintro rfl
        rw [hc] at hk
        cases hk
      have hd : eat kind setup s = .done (s.kind == kind) (s.skip kind) := eat_done.2 ⟨rfl, rfl⟩
      have hs' := hs.ne_of_not_closing hc hk
      simp only [hd, State.skip, if_neg hne, if_neg hs']
      exact .done ⟨by rw [beq_eq_false_iff_ne.2 hs', beq_eq_false_iff_ne.2 hne]; rfl, hs⟩
    · exact (embedsInside_eat kind).yields hsetup hs (State.hasTokens_of_ne hc) hd hq

instance {P : Bool → State → Prop} : Embeds f P (eat .dot) (eat .dot) := embeds_eat rfl

theorem isWord_of_kind {token : Token} (hk : token.kind ≠ .identifier) (word : String) :
    token.isWord word = false := by simp [Token.isWord, hk]

instance {P : Bool → State → Prop} (word : String) : Embeds f P (eatWord word) (eatWord word) where
  yields {setup setup'} hsetup {s c c' value'} hs hd hq := by
    obtain ⟨rfl, rfl⟩ := eatWord_done.1 hd
    have hd : eatWord word setup s = .done (s.current.isWord word)
        (if s.current.isWord word then s.advance else s) := eatWord_done.2 ⟨rfl, rfl⟩
    rw [hd]
    by_cases hc : c.kind = .eof
    · have hcw : c.current.isWord word = false :=
        isWord_of_kind (by rw [show c.current.kind = .eof from hc]; decide) word
      have hsw : s.current.isWord word = false :=
        isWord_of_kind (hs.ne_of_not_closing hc rfl) word
      rw [hcw, hsw]
      exact .done ⟨rfl, hs⟩
    · have hc := State.hasTokens_of_ne hc
      rw [hs.isWord hc]
      refine .done ⟨rfl, ?_⟩
      split
      · exact hs.advance hc
      · exact hs

instance {P : Token → State → Prop} (kind : Token.Kind) [hk : kind.Inner]
    (error error' : Parse Error) : Embeds f P (expectOr kind error) (expectOr kind error') where
  yields {setup setup'} hsetup {s c c' value'} hs hd hq := by
    obtain ⟨hc, rfl, rfl⟩ := expectOr_done.1 hd
    have hts := State.hasTokens_of_kind hc hk.ne
    have hd : expectOr kind error setup s = .done s.current s.advance :=
      expectOr_done.2 ⟨(hs.kind hts).trans hc, rfl, rfl⟩
    rw [hd]
    exact .done ⟨hs.current hts, hs.advance hts⟩

instance {P : Token → State → Prop} (kind : Token.Kind) [kind.Inner] :
    Embeds f P (expect kind) (expect kind) := by
  unfold expect
  infer_instance

instance {P : NodeId → State → Prop} {start start' : Nat} {shape shape' : Shape}
    [Related (Like f) shape shape'] : Embeds f P (pushFrom start shape) (pushFrom start' shape') := by
  unfold pushFrom
  infer_instance

instance [Renumbered α] {a a' : α} [h : Related (Like f) a a'] :
    Related (Like f) (some a) (some a') := ⟨congrArg some h.holds⟩

instance [Renumbered α] : Related (Like f) (none : Option α) none := ⟨rfl⟩

instance [Renumbered α] {a a' : α} {as as' : List α} [h : Related (Like f) a a']
    [hs : Related (Like f) as as'] : Related (Like f) (a :: as) (a' :: as') :=
  ⟨h.holds.cons hs.holds⟩

instance [Renumbered α] : Related (Like f) ([] : List α) [] := ⟨rfl⟩

instance [Renumbered α] [Renumbered β] {a a' : α} {b b' : β} [h : Related (Like f) a a']
    [h' : Related (Like f) b b'] : Related (Like f) (a, b) (a', b') :=
  ⟨congrArg₂ Prod.mk h.holds h'.holds⟩

instance (b : Bool) : Related (Like f) b b := ⟨rfl⟩

theorem embeds_some [Renumbered α] {P : α → State → Prop} {Q : Option α → State → Prop}
    {step step' : Parse α} [Keeps step'] (h : Embeds f P step step')
    (hp : ∀ a c, Q (some a) c → P a c) : Embeds f Q (some <$> step) (some <$> step') := by
  change Embeds f Q (step >>= fun a => pure (some a)) (step' >>= fun a => pure (some a))
  refine embeds_last h (fun a => inferInstance) (fun a a' hl => embeds_pure (congrArg some hl)) ?_
  rintro a setup c c' value - - hd hq
  obtain ⟨rfl, rfl⟩ := pure_done.1 hd
  exact hp _ _ hq

instance [Renumbered α] {p : Prop} {step step' : Parse α} [Keeps step']
    [h : Embeds f (When p) step step'] : Embeds f (When p) (some <$> step) (some <$> step') :=
  embeds_some h fun _ _ hq => hq

instance [Renumbered α] {p : Prop} {sign sign' : Parse Bool} {step step' : Parse α}
    [Keeps sign'] [Keeps step'] [Embeds f (When p) sign sign'] [Embeds f (When p) step step'] :
    Embeds f (When p) (optionally sign step) (optionally sign' step') := by
  unfold optionally
  infer_instance

/-! ## Names and lists -/

set_option synthInstance.maxSize 2048

instance {P : Name → State → Prop} : Embeds f P name name := by
  refine EmbedsInside.of_passes (embedsInside_look_bind Embedded.current fun token token' hl => ?_)
  have hb : token.bare = token'.bare := hl
  have hk : token.kind = token'.kind := (congrArg Token.kind hb :)
  have hv : token.value = token'.value := (congrArg Token.value hb :)
  have hn : token.isName = token'.isName := by rw [Token.isName, Token.isName, hk]
  rw [hn]
  split
  · refine embedsInside_advance fun _ _ _ => embeds_pure ?_
    rw [hk, hv]
    rfl
  · exact Embeds.inside inferInstance

instance {P : Path → State → Prop} : Embeds f P path path := by
  have (first first' : Name) (more more' : List Name) (span span' : Span)
      [h : Related (Like f) first first'] [h' : Related (Like f) more more'] :
      Related (Like f) (⟨first, more, span⟩ : Path) ⟨first', more', span'⟩ :=
    ⟨congrArg₂ (fun first more => (⟨first, more, default⟩ : Path)) h.holds h'.holds⟩
  unfold path
  infer_instance

instance {P : List NodeId → State → Prop} (close : Token.Kind) [close.Inner]
    {element element' : Parse NodeId} [Keeps element'] [Embeds f (When False) element element'] :
    Embeds f P (delimited close element) (delimited close element') := by
  unfold delimited
  infer_instance

theorem embeds_bracedItems {p : Prop} (hp : p → f.Ends) {item item' : Parse NodeId} [Keeps item']
    [h : Embeds f (When p) item item'] : Embeds f (When p) (bracedItems item) (bracedItems item') := by
  have hturn : Embeds f (When p)
      (do
        if ← look fun s => s.hasTokens && s.kind != .closeCurly then return some (← item, true)
        else return none)
      (do
        if ← look fun s => s.hasTokens && s.kind != .closeCurly then return some (← item', true)
        else return none) := by
    refine embeds_bind (α := Bool) ⟨?_⟩ (fun b => inferInstance) fun b b' hl => ?_
    · intro setup setup' hsetup s c₁ c value' hs hd hq
      obtain ⟨rfl, rfl⟩ := look_done.1 hd
      refine .done ⟨?_, hs⟩
      by_cases hc : c.kind = .eof
      · have hs : s.kind = .closeCurly ∨ s.kind = .eof := by
          rw [State.kind, (hs.outside hc).1]
          exact hp (hq hc)
        rcases hs with hk | hk <;> simp [State.hasTokens, hk, hc] <;> rfl
      · simp only [State.hasTokens, hs.kind (State.hasTokens_of_ne hc)]
        rfl
    · have : Related (Like f) b b' := ⟨hl⟩
      infer_instance
  exact inferInstanceAs (Embeds f (When p) (collect _) (collect _))

end

end Parse
end Smaug
