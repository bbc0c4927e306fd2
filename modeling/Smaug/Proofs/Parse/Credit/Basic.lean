import Mathlib
import Smaug.Proofs.Parse.Moments
import Smaug.Proofs.Parse.Passing
import Smaug.Proofs.Token.Width

/-! # Bytes pay for nodes

Each byte passed pays for one node.  A step is solvent with a credit of `n` bytes if, from any state
that many bytes ahead of its nodes, it never comes to hold more nodes than bytes were passed; what
it leaves of the credit is there for the steps after it.  Most steps need none, since they pass a
token before they add a node.
-/

namespace Smaug
namespace Parse

/-! ## The credit of a state -/

namespace State

/-- At least `credit` more bytes were passed than there are nodes. -/
def Affords (s : State) (credit : Nat) : Prop := s.nodes.size + credit ≤ s.lastStop

theorem Affords.mono {s : State} {n m : Nat} (h : s.Affords n) (hle : m ≤ n) : s.Affords m := by
  unfold Affords at *
  omega

/-- The tokens ahead are in order, and each is as wide as its kind says. -/
structure Sound (s : State) : Prop where
  order : InOrder s.lastStop s.tokens
  wide : ∀ token ∈ s.tokens, token.kind ≠ .eof →
    token.span.start + token.kind.width ≤ token.span.stop

theorem Sound.grow {s s' : State} (hs : s.Sound) (h : Grown s s') : s'.Sound := by
  obtain ⟨passed, ht, hk, hl⟩ := h.tokens
  have ho := hs.order
  have hw := hs.wide
  rw [ht] at ho hw
  refine ⟨?_, fun token hm => hw token (List.mem_append_right _ hm)⟩
  rw [hl]
  exact ho.drop (List.cons_ne_nil _ _)

theorem Sound.lastStop_le {s s' : State} (hs : s.Sound) (h : Grown s s') :
    s.lastStop ≤ s'.lastStop := by
  obtain ⟨passed, ht, hk, hl⟩ := h.tokens
  have ho := hs.order
  rw [ht] at ho
  rw [hl]
  exact ho.le_stopAfter hk

/-- Passing a token earns its bytes. -/
theorem Sound.advance {s : State} (hs : s.Sound) :
    s.lastStop + s.kind.width ≤ s.advance.lastStop := by
  obtain ⟨current, ahead, nodes, depth, lastStop⟩ := s
  have hw := hs.wide current List.mem_cons_self
  cases ahead with
  | nil =>
    cases hs.order with
    | last hk =>
      change lastStop + current.kind.width ≤ lastStop
      rw [hk, show Token.Kind.width .eof = 0 by decide]
      exact Nat.le_refl _
    | cons _ _ _ ht => cases ht
  | cons next ahead =>
    cases hs.order with
    | cons hk hl =>
      have ha : current.kind != .eof := bne_iff_ne.2 hk
      have hl : lastStop ≤ current.span.start := hl
      have hw := hw hk
      simp only [State.advance, hasTokens, kind, ha, if_true]
      omega

theorem Affords.advance {s : State} {n : Nat} (h : s.Affords n) (hs : s.Sound) :
    s.advance.Affords (n + s.kind.width) := by
  have := hs.advance
  unfold Affords at *
  rw [advance_nodes]
  omega

theorem Affords.advance_kind {s : State} {n w : Nat} {kind : Token.Kind} [hw : kind.Wide w]
    (h : s.Affords n) (hs : s.Sound) (hk : s.kind = kind) : s.advance.Affords (n + w) := by
  have := hw.le
  refine (h.advance hs).mono ?_
  rw [hk]
  omega

theorem Affords.push {s : State} {n : Nat} (h : s.Affords (n + 1)) (node : Node) :
    (s.push node).Affords n := by
  unfold Affords State.push at *
  rw [Array.size_push]
  dsimp only
  omega

/-- `t` has come from `s`, and there are no more nodes than bytes were passed. -/
structure Paid (s t : State) : Prop where
  grown : Grown s t
  affords : t.Affords 0

theorem Paid.from {s s' t : State} (h : Grown s s') (hp : Paid s' t) : Paid s t :=
  ⟨h.trans hp.grown, hp.affords⟩

end State

/-! ## Steps within a credit -/

/-- A step that starts with a credit of `n` bytes never comes to hold more nodes than bytes were
passed, and yields `a` with a credit of `m a`. -/
structure Script.Solvent {step : Parse α} (script : Script step) (setup : Setup) (s : State)
    (n : Nat) (m : α → Nat) : Prop where
  moments (h : s.Affords n) : ∀ t ∈ script.trace setup s, s.Paid t
  rest {k : Nat} {a : α} {s' : State} (h : s.Affords (n + k)) (hd : step setup s = .done a s') :
    s'.Affords (m a + k)

namespace Script.Solvent

variable {α β : Type} {step : Parse α} {setup : Setup} {s : State} {n : Nat} {m : α → Nat}

theorem weaken {script : Script step} (h : script.Solvent setup s n m) (k : Nat) {n' : Nat}
    {m' : α → Nat} (hn : n + k ≤ n') (hm : ∀ a, m' a ≤ m a + k) :
    script.Solvent setup s n' m' where
  moments ha := h.moments (ha.mono (by omega))
  rest {l a s'} ha hd := by
    have ha' : s.Affords (n + (k + l)) := ha.mono (by omega)
    have := hm a
    exact (h.rest ha' hd).mono (by omega)

theorem drop {script : Script step} (h : script.Solvent setup s n m) :
    script.Solvent setup s n fun _ => 0 := h.weaken 0 (Nat.le_refl _) fun _ => Nat.zero_le _

/-- A step that fails does not leave debts either. -/
theorem final {script : Script step} (h : script.Solvent setup s n m) (ha : s.Affords n) :
    s.Paid (step setup s).state := by
  rcases (script.course setup s).last with hl | hl
  · rw [hl]
    exact ⟨.refl s, ha.mono (Nat.zero_le _)⟩
  · exact h.moments ha _ hl

theorem pure {a : α} (h : m a ≤ n) : (Script.pure a).Solvent setup s n m where
  moments _ := by simp [trace]
  rest ha hd := by
    cases hd
    exact ha.mono (by omega)

theorem look (f : State → α) : (Script.look f).Solvent setup s n fun _ => n where
  moments _ := by simp [trace]
  rest ha hd := by
    cases hd
    exact ha

theorem given (f : Setup → α) : (Script.given f).Solvent setup s n fun _ => n where
  moments _ := by simp [trace]
  rest ha hd := by
    cases hd
    exact ha

theorem refuse {error : Parse Error} (he : MakesError error) :
    (Script.refuse he : Script (do Parse.refuse (← error) : Parse α)).Solvent setup s n m where
  moments _ := by simp [trace]
  rest ha hd := by
    obtain ⟨e, s₁, -, hd⟩ := bind_done.1 hd
    cases hd

theorem exhausted :
    (Script.exhausted : Script (stop .exhausted : Parse α)).Solvent setup s n m where
  moments _ := by simp [trace]
  rest _ hd := by cases hd

theorem node (id : NodeId) : (Script.node id).Solvent setup s n fun _ => n where
  moments _ := by simp [trace]
  rest ha hd := by
    unfold Parse.node at hd
    split at hd
    · cases hd
      exact ha
    · cases hd

theorem advance (hs : s.Sound) : Script.advance.Solvent setup s n fun _ => n + s.kind.width where
  moments ha t ht := by
    rw [List.mem_singleton.1 ht]
    exact ⟨(Kept.advance s).toGrown, (ha.advance hs).mono (Nat.zero_le _)⟩
  rest ha hd := by
    cases hd
    exact (ha.advance hs).mono (by omega)

theorem advance_kind {kind : Token.Kind} {w : Nat} [hw : kind.Wide w] (hk : s.kind = kind)
    (hs : s.Sound) : Script.advance.Solvent setup s n fun _ => n + w where
  moments ha := (advance hs).moments ha
  rest ha hd := by
    cases hd
    exact (ha.advance_kind hs hk).mono (by omega)

theorem advance_token (ht : s.hasTokens) (hs : s.Sound) :
    Script.advance.Solvent setup s n fun _ => n + 1 :=
  (advance hs).weaken 0 (Nat.le_refl _) fun _ =>
    Nat.add_le_add_left (Token.Kind.width_pos (bne_iff_ne.1 ht)) n

theorem push (shape : Shape) (span : Span) :
    (Script.push shape span).Solvent setup s (n + 1) fun _ => n where
  moments ha t ht := by
    rw [List.mem_singleton.1 ht]
    exact ⟨(Kept.push s _).toGrown, (ha.push _).mono (Nat.zero_le _)⟩
  rest {k _ _} ha hd := by
    cases hd
    exact State.Affords.push (ha.mono (by omega)) _

theorem bind [Keeps step] {next : α → Parse β} {first : Script step}
    {rest : ∀ a, Script (next a)} {l : β → Nat} (hf : first.Solvent setup s n m)
    (hr : ∀ a s', step setup s = .done a s' → (rest a).Solvent setup s' (m a) l) :
    (Script.bind first rest).Solvent setup s n l where
  moments ha := mem_bind_trace (hf.moments ha) fun a s' hd t ht =>
    .from (kept_of_done hd).toGrown ((hr a s' hd).moments (hf.rest (k := 0) ha hd) t ht)
  rest ha hd := by
    obtain ⟨a, s', hs, hd⟩ := bind_done.1 hd
    exact (hr a s' hs).rest (hf.rest ha hs) hd

theorem look_bind {f : State → α} {next : α → Parse β} {rest : ∀ a, Script (next a)} {l : β → Nat}
    (h : (rest (f s)).Solvent setup s n l) :
    (Script.bind (.look f) rest).Solvent setup s n l :=
  .bind (.look f) fun a s' hd => by
    obtain ⟨rfl, rfl⟩ := look_done.1 hd
    exact h

theorem given_bind {f : Setup → α} {next : α → Parse β} {rest : ∀ a, Script (next a)}
    {l : β → Nat} (h : (rest (f setup)).Solvent setup s n l) :
    (Script.bind (.given f) rest).Solvent setup s n l :=
  .bind (.given f) fun a s' hd => by
    obtain ⟨rfl, rfl⟩ := given_done.1 hd
    exact h

/-- Going back to where the parse has come from is free. -/
theorem reset_moments {s' : State} (hg : Grown s s') (ha : s.Affords 0) :
    ∀ t ∈ (Script.reset s.mark).trace setup s', s.Paid t := by
  intro t ht
  rw [List.mem_singleton.1 ht, hg.reset_mark]
  exact ⟨.refl s, ha⟩

theorem inside {script : Script step} (delimiter : Char) (construct : String) (opening : Span)
    (h : script.Solvent setup s n m) :
    (Script.inside delimiter construct opening script).Solvent setup s n m where
  moments ha t ht := h.moments ha t ht
  rest ha hd := h.rest ha (inside_done.1 hd)

theorem nested {script : Script step} (h : script.Solvent setup s.deeper n m) :
    (Script.nested script).Solvent setup s n m where
  moments ha t ht := by
    have hd : Grown s s.deeper := ⟨⟨[], rfl, by simp, rfl⟩, List.prefix_refl _⟩
    have hl : s.deeper.Paid (step setup s.deeper).state := h.final ha
    rw [trace] at ht
    split at ht
    · rcases List.mem_cons.1 ht with rfl | ht
      · exact ⟨hd, ha.mono (Nat.zero_le n)⟩
      · rcases List.mem_append.1 ht with ht | ht
        · exact .from hd (h.moments ha t ht)
        · split at ht
          iterate 2
            · rename_i ho
              rw [ho] at hl
              rw [List.mem_singleton.1 ht]
              exact .from hd ⟨⟨hl.grown.tokens, hl.grown.nodes⟩, hl.affords⟩
          · cases ht
    · cases ht
  rest ha hd := by
    obtain ⟨-, s₁, hs, rfl⟩ := nested_done.1 hd
    have := h.rest ha hs
    exact this

/-- Turns that leave the credit for the next one, for as long as there is one. -/
theorem iterate {turn : α → Parse (Turn α β)} [h : ∀ a, Script (turn a)] [∀ a, Keeps (turn a)]
    {l : Nat} (ht : ∀ a s, s.Sound → (h a).Solvent setup s n fun
      | .again _ => n
      | .finish _ => l)
    (turns : Nat) (a : α) (hs : s.Sound) :
    (instIterate turns a : Script (Parse.iterate turn turns a)).Solvent setup s n fun _ => l := by
  induction turns generalizing a s with
  | zero => exact exhausted
  | succ turns ih =>
    refine bind (ht a s hs) fun result s₁ hd => ?_
    cases result with
    | again a => exact ih a (hs.grow (kept_of_done hd).toGrown)
    | finish b => exact pure (Nat.le_refl _)

theorem collect {step : Parse (Option (α × Bool))} [h : Script step] [Keeps step] {l : Nat}
    (hc : ∀ s, s.Sound → h.Solvent setup s n fun
      | some (_, true) => n
      | _ => l) (hs : s.Sound) :
    (inferInstance : Script (Parse.collect step)).Solvent setup s n fun _ => l := by
  refine look_bind ?_
  refine @iterate _ _ _ _ _ _ (_) (fun items => keeps_bind step fun item => ?_) _
    (fun items s hs => bind (hc s hs) fun item s₁ hd => ?_) _ _ hs
  · split <;> infer_instance
  · rcases item with _ | ⟨_, _ | _⟩
    all_goals exact pure (Nat.le_refl _)

end Script.Solvent

theorem attempt_state {step : Parse α} {setup : Setup} {s s' : State} {a : Option α}
    (h : attempt step setup s = .done a s') : (step setup s).state = s' := by
  unfold attempt at h
  split at h <;> rename_i ho <;> cases h <;> rw [ho] <;> rfl

/-- A step that is solvent with a credit of `n` bytes, and yields `a` with `m a` of it left. -/
class Pays (n : Nat) (step : Parse α) [script : Script step] (m : outParam (α → Nat)) : Prop where
  pays {setup : Setup} {s : State} (ht : setup.table = .standard) (hs : s.Sound) :
    script.Solvent setup s n m

class Covers (n : Nat) (step : Parse α) [script : Script step] : Prop where
  covers {setup : Setup} {s : State} (ht : setup.table = .standard) (hs : s.Sound) :
    script.Solvent setup s n fun _ => 0

/-! ## Steps that keep within their credit -/

section
variable {α β : Type} {step : Parse α} [script : Script step] {n : Nat} {m : α → Nat}

-- Both are for steps without an instance of their own, the first before the second: what needs no
-- byte can also be given one, but then leaves less.

/-- A step that needs no credit leaves all of it. -/
instance (priority := low) [h : Covers 0 step] : Pays n step fun _ => n where
  pays ht hs := (h.covers ht hs).weaken n (Nat.zero_add n).le fun _ => (Nat.zero_add n).ge

/-- A step that needs one byte leaves the rest. -/
instance (priority := 50) [h : Covers 1 step] : Pays (n + 1) step fun _ => n where
  pays ht hs := (h.covers ht hs).weaken n (Nat.add_comm 1 n).le fun _ => (Nat.zero_add n).ge

theorem covers_of_pays [h : Pays n step m] : Covers n step :=
  ⟨fun ht hs => (h.pays ht hs).drop⟩

instance (a : α) : Covers n (pure a) := ⟨fun _ _ => .pure (Nat.zero_le _)⟩

instance (f : State → α) : Covers n (look f) := ⟨fun _ _ => (Script.Solvent.look f).drop⟩

instance (f : State → α) : Pays n (look f) fun _ => n := ⟨fun _ _ => .look f⟩

instance (f : Setup → α) : Pays n (given f) fun _ => n := ⟨fun _ _ => .given f⟩

instance {error : Parse Error} [he : MakesError error] :
    Covers n (do refuse (← error) : Parse α) := ⟨fun _ _ => .refuse he⟩

instance : Covers n advance := ⟨fun _ hs => (Script.Solvent.advance hs).drop⟩

instance (id : NodeId) : Pays n (node id) fun _ => n := ⟨fun _ _ => .node id⟩

instance (shape : Shape) (span : Span) : Pays (n + 1) (push shape span) fun _ => n :=
  ⟨fun _ _ => .push shape span⟩

instance (shape : Shape) (span : Span) : Covers (n + 1) (push shape span) := covers_of_pays

instance {next : α → Parse β} [∀ a, Script (next a)] [Keeps step] [hf : Pays n step m]
    [hr : ∀ a, Covers (m a) (next a)] : Covers n (step >>= next) where
  covers ht hs := (hf.pays ht hs).bind fun a _ hd =>
    (hr a).covers ht (hs.grow (kept_of_done hd).toGrown)

theorem pays_bind {next : α → Parse β} [∀ a, Script (next a)] [Keeps step] {l : β → Nat}
    (hf : Pays n step m) (hr : ∀ a, Pays (m a) (next a) l) : Pays n (step >>= next) l where
  pays ht hs := (hf.pays ht hs).bind fun a _ hd =>
    (hr a).pays ht (hs.grow (kept_of_done hd).toGrown)

instance (f : α → β) [Keeps step] [h : Covers n step] : Covers n (f <$> step) where
  covers ht hs := (h.covers ht hs).bind fun _ _ _ => .pure (Nat.le_refl _)

instance {c : Prop} [hc : Decidable c] {other : Parse α} [Script other] [h : Covers n step]
    [ho : Covers n other] : Covers n (if c then step else other) := by
  cases hc with
  | isTrue => exact h
  | isFalse => exact ho

instance {b : Bool} {other : Parse α} [Script other] {l : Nat} [h : Covers n step]
    [ho : Covers l other] : Covers (if b then n else l) (if b then step else other) := by
  cases b with
  | true => exact h
  | false => exact ho

instance (delimiter : Char) (construct : String) (opening : Span) [h : Covers n step] :
    Covers n (inside delimiter construct opening step) :=
  ⟨fun ht hs => (h.covers ht hs).inside _ _ _⟩

instance (delimiter : Char) (construct : String) (opening : Span) [h : Pays n step m] :
    Pays n (inside delimiter construct opening step) m :=
  ⟨fun ht hs => (h.pays ht hs).inside _ _ _⟩

instance {step : Parse (Option (α × Bool))} [Script step] [Keeps step] [h : Covers 0 step] :
    Covers n (collect step) where
  covers ht hs := by
    have hc : (inferInstance : Script (collect step)).Solvent _ _ 0 fun _ => 0 :=
      .collect (fun s hs => (h.covers ht hs).weaken 0 (Nat.le_refl _) fun item => by
        split <;> exact Nat.le_refl _) hs
    exact hc.weaken n (by omega) fun _ => Nat.zero_le _

end

/-! ## Tokens and nodes -/

section
variable {α β : Type} {n w : Nat}

instance (kind : Token.Kind) : Covers n (isAt kind) := inferInstanceAs (Covers n (look _))

instance (kind : Token.Kind) [kind.Wide w] : Pays n (eat kind) fun b => if b then n + w else n where
  pays {setup s} _ hs := by
    refine .look_bind ?_
    cases hk : s.kind == kind with
    | true =>
      refine .bind (.advance_kind (beq_iff_eq.1 hk) hs) fun _ _ _ => ?_
      exact .pure (Nat.le_refl _)
    | false => exact .pure (Nat.le_refl _)

instance (kind : Token.Kind) [kind.Wide w] : Covers n (eat kind) := covers_of_pays

instance (word : String) : Covers n (eatWord word) := by delta eatWord; infer_instance

instance (kind : Token.Kind) [kind.Wide w] {error : Parse Error} [MakesError error] :
    Pays n (expectOr kind error) fun _ => n + w where
  pays {setup s} _ hs := by
    refine .look_bind ?_
    cases hk : s.kind == kind with
    | true => exact .advance_kind (beq_iff_eq.1 hk) hs
    | false => exact .refuse _

instance (kind : Token.Kind) [kind.Wide w] : Pays n (expect kind) fun _ => n + w :=
  inferInstanceAs (Pays n (expectOr _ _) _)

/-- A token that is looked at and then passed. -/
instance (kind : Token.Kind) [kind.Wide w] {next : Token → Parse β} {other : Parse β}
    [∀ token, Script (next token)] [Script other] [h : ∀ token, Covers (n + w) (next token)]
    [ho : Covers n other] :
    Covers n (isAt kind >>= fun b => if b then advance >>= next else other) where
  covers {setup s} ht hs := by
    refine .look_bind ?_
    cases hk : s.kind == kind with
    | true =>
      refine .bind (.advance_kind (beq_iff_eq.1 hk) hs) fun token s₂ hd => ?_
      exact (h token).covers ht (hs.grow (kept_of_done hd).toGrown)
    | false => exact ho.covers ht hs

instance (start : Nat) (shape : Shape) : Pays (n + 1) (pushFrom start shape) fun _ => n :=
  pays_bind inferInstance fun _ => inferInstance

instance (start : Nat) (shape : Shape) : Covers (n + 1) (pushFrom start shape) := covers_of_pays

instance (id : NodeId) : Covers n (spanOf id) := by delta spanOf; infer_instance

instance {sign : Parse Bool} {step : Parse α} [Script sign] [Script step] [Keeps sign]
    [Keeps step] [Covers 0 sign] [Covers 0 step] : Covers 0 (optionally sign step) := by
  delta optionally; infer_instance

end

/-! ## Names and lists -/

section
variable {n : Nat}

instance : Pays n name fun _ => n + 1 where
  pays {setup s} _ hs := by
    refine .look_bind ?_
    cases hn : s.current.isName with
    | true =>
      exact .bind (.advance_token (State.hasTokens_of_isName hn) hs)
        fun _ _ _ => .pure (Nat.le_refl _)
    | false => exact .refuse _

instance : Pays n path fun _ => n + 1 :=
  pays_bind inferInstance fun _ => pays_bind inferInstance fun _ => pays_bind inferInstance fun _ =>
    ⟨fun _ _ => .pure (Nat.le_refl _)⟩

instance {item : Parse NodeId} [Script item] [Keeps item] [Covers 0 item] :
    Covers n (bracedItems item) := by delta bracedItems; infer_instance

/-- Elements that need a byte in advance get it from the bracket or comma before them. -/
theorem delimited_solvent (close : Token.Kind) [close.Wide 1] {element : Parse NodeId}
    [Script element] [Keeps element] {e : Nat} (he : e ≤ 1) [h : Covers e element] {setup : Setup}
    {s : State} (ht : setup.table = .standard) (hs : s.Sound) :
    (inferInstance : Script (delimited close element)).Solvent setup s e fun _ => 1 := by
  refine .bind (.collect (l := 0) (fun s hs => ?_) hs) fun ids s₁ hd => ?_
  · refine .look_bind ?_
    cases s.kind == close with
    | true => exact .pure (Nat.zero_le _)
    | false =>
      refine .bind (h.covers ht hs) fun id s₂ hd => ?_
      refine .bind (Pays.pays ht (hs.grow (kept_of_done hd).toGrown)) fun b s₃ hd => ?_
      cases b with
      | true => exact .pure he
      | false => exact .pure (Nat.le_refl _)
  · exact .bind (Pays.pays ht (hs.grow (kept_of_done hd).toGrown))
      fun token s₂ hd => .pure (Nat.le_refl _)

instance (close : Token.Kind) [close.Wide 1] {element : Parse NodeId} [Script element]
    [Keeps element] [Covers 0 element] : Pays n (delimited close element) fun _ => n + 1 where
  pays ht hs := (delimited_solvent close (Nat.zero_le 1) ht hs).weaken n (Nat.zero_add n).le
    fun _ => (Nat.add_comm 1 n).ge

instance (priority := low) (close : Token.Kind) [close.Wide 1] {element : Parse NodeId}
    [Script element] [Keeps element] [Covers 1 element] :
    Pays (n + 1) (delimited close element) fun _ => n + 1 where
  pays ht hs := (delimited_solvent close (Nat.le_refl 1) ht hs).weaken n (Nat.add_comm 1 n).le
    fun _ => (Nat.add_comm 1 n).ge

end

end Parse
end Smaug
