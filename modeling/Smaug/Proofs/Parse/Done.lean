import Smaug.Proofs.Parse.Kept

/-! # When a step is done

What is known of a step that yields a value: which way it went, and the states it came through.
Loops become lists of turns here, and their bound on the number of turns is gone.
-/

namespace Smaug.Parse

def State.name (s : State) : Name := ⟨s.current.value, s.current.kind == .builtIn, s.current.span⟩

def State.skip (s : State) (kind : Token.Kind) : State := if s.kind = kind then s.advance else s

theorem Kept.skip (s : State) (kind : Token.Kind) : Kept s (s.skip kind) := by
  unfold State.skip
  split
  · exact .advance s
  · exact .refl s

section
variable {setup : Setup} {s s' : State}

theorem pure_done {value value' : α} :
    (pure value : Parse α) setup s = .done value' s' ↔ value' = value ∧ s' = s := by
  change Outcome.done value s = .done value' s' ↔ _
  rw [Outcome.done.injEq, eq_comm, @eq_comm _ s]

theorem bind_done {step : Parse α} {next : α → Parse β} {value : β} :
    (step >>= next) setup s = .done value s' ↔
      ∃ a s₁, step setup s = .done a s₁ ∧ next a setup s₁ = .done value s' := by
  change Parse.bind step next setup s = _ ↔ _
  unfold Parse.bind
  cases step setup s with
  | done a s₁ =>
    constructor
    · exact fun h => ⟨a, s₁, rfl, h⟩
    · rintro ⟨a', s', h, hn⟩
      cases h
      exact hn
  | stopped why s₁ => simp

theorem map_done {f : α → β} {step : Parse α} {value : β} :
    (f <$> step) setup s = .done value s' ↔
      ∃ a, step setup s = .done a s' ∧ value = f a := by
  change (step >>= fun a => pure (f a)) setup s = _ ↔ _
  simp [bind_done, pure_done]

theorem look_done {f : State → α} {value : α} :
    look f setup s = .done value s' ↔ value = f s ∧ s' = s := @pure_done setup s s' _ _ _

theorem given_done {f : Setup → α} {value : α} :
    given f setup s = .done value s' ↔ value = f setup ∧ s' = s := @pure_done setup s s' _ _ _

theorem refuse_done {error : Error} {value : α} :
    (refuse error : Parse α) setup s = .done value s' ↔ False := by
  simp [refuse, stop]

theorem advance_done {token : Token} :
    advance setup s = .done token s' ↔ token = s.current ∧ s' = s.advance := by
  change Outcome.done _ _ = Outcome.done _ _ ↔ _
  rw [Outcome.done.injEq, eq_comm, @eq_comm _ s.advance]

theorem isAt_done {kind : Token.Kind} {b : Bool} :
    isAt kind setup s = .done b s' ↔ b = (s.kind == kind) ∧ s' = s := look_done

theorem eat_done {kind : Token.Kind} {b : Bool} :
    eat kind setup s = .done b s' ↔ b = (s.kind == kind) ∧ s' = s.skip kind := by
  unfold eat State.skip
  by_cases h : s.kind = kind
  · simp [bind_done, isAt_done, advance_done, pure_done, and_assoc, and_comm, h]
  · have hb : (s.kind == kind) = false := by simp [h]
    simp [bind_done, isAt_done, pure_done, and_assoc, h, hb]

theorem eatWord_done {word : String} {b : Bool} :
    eatWord word setup s = .done b s' ↔
      b = s.current.isWord word ∧ s' = if s.current.isWord word then s.advance else s := by
  unfold eatWord
  cases h : s.current.isWord word <;>
    simp [bind_done, look_done, advance_done, pure_done, and_assoc, and_comm, h]

theorem optionally_done {sign : Parse Bool} {step : Parse α} {value : Option α} :
    optionally sign step setup s = .done value s' ↔
      (∃ a s₁, sign setup s = .done true s₁ ∧ step setup s₁ = .done a s' ∧ value = some a) ∨
        sign setup s = .done false s' ∧ value = none := by
  simp only [optionally, bind_done]
  constructor
  · rintro ⟨b, s₁, hb, h⟩
    cases b with
    | true =>
      obtain ⟨a, ha, rfl⟩ := map_done.1 h
      exact .inl ⟨a, s₁, hb, ha, rfl⟩
    | false =>
      obtain ⟨rfl, rfl⟩ := pure_done.1 h
      exact .inr ⟨hb, rfl⟩
  · rintro (⟨a, s₁, hb, ha, rfl⟩ | ⟨hb, rfl⟩)
    · exact ⟨true, s₁, hb, map_done.2 ⟨a, ha, rfl⟩⟩
    · exact ⟨false, s', hb, pure_done.2 ⟨rfl, rfl⟩⟩

theorem expectOr_done {kind : Token.Kind} {error : Parse Error} {token : Token} :
    expectOr kind error setup s = .done token s' ↔
      s.kind = kind ∧ token = s.current ∧ s' = s.advance := by
  unfold expectOr
  by_cases h : s.kind = kind <;> simp [bind_done, isAt_done, advance_done, refuse_done, h]

theorem expect_done {kind : Token.Kind} {token : Token} :
    expect kind setup s = .done token s' ↔
      s.kind = kind ∧ token = s.current ∧ s' = s.advance := expectOr_done

theorem inside_done {delimiter : Char} {construct : String} {opening : Span} {step : Parse α}
    {value : α} :
    inside delimiter construct opening step setup s = .done value s' ↔
      step setup s = .done value s' := by
  unfold inside mapError
  split
  · rename_i h
    simp [h]
  · rfl

theorem push_done {shape : Shape} {span : Span} {id : NodeId} :
    push shape span setup s = .done id s' ↔ id = s.nodes.size ∧ s' = s.push ⟨shape, span⟩ := by
  change Outcome.done _ _ = Outcome.done _ _ ↔ _
  rw [Outcome.done.injEq, eq_comm, @eq_comm _ (s.push ⟨shape, span⟩)]

theorem pushFrom_done {start : Nat} {shape : Shape} {id : NodeId} :
    pushFrom start shape setup s = .done id s' ↔
      id = s.nodes.size ∧ s' = s.push ⟨shape, s.spanFrom start⟩ := by
  simp [pushFrom, bind_done, look_done, push_done, and_assoc]

theorem spanOf_done {id : NodeId} {span : Span} :
    spanOf id setup s = .done span s' ↔
      ∃ node, s.nodes[id]? = some node ∧ span = node.span ∧ s' = s := by
  simp only [spanOf, bind_done, pure_done, node]
  cases s.nodes[id]? with
  | none => simp
  | some node =>
    constructor
    · rintro ⟨_, _, h, rfl, rfl⟩
      cases h
      exact ⟨node, rfl, rfl, rfl⟩
    · rintro ⟨_, h, rfl, rfl⟩
      cases h
      exact ⟨node, s', rfl, rfl, rfl⟩

theorem nested_done {step : Parse α} {value : α} :
    nested step setup s = .done value s' ↔
      s.depth < setup.maxDepth ∧ ∃ s₁, step setup s.deeper = .done value s₁ ∧ s' = s₁.leave := by
  rw [nested_apply]
  by_cases h : s.depth < setup.maxDepth
  · simp only [h, if_true, true_and]
    split
    · rename_i ho
      simp [ho, and_assoc, eq_comm]
    · rename_i ho
      simp [ho]
    · rename_i ho
      simp [ho]
  · simp [h]

end

/-! ## Lists -/

/-- The turns of a loop that collects items: `turn s item more s'` is one turn, where `more` says
whether to ask for another item, and `finished` is where it asks in vain. -/
inductive Collected (finished : State → Prop) (turn : State → α → Bool → State → Prop) :
    State → List α → State → Prop
  | nil (h : finished s) : Collected finished turn s [] s
  | last (h : turn s item false s') : Collected finished turn s [item] s'
  | cons (h : turn s item true s₁) (hs : Collected finished turn s₁ items s') :
      Collected finished turn s (item :: items) s'

section
variable {setup : Setup} {s s' : State}

theorem iterate_done {step : Parse (Option (α × Bool))} {finished : State → Prop}
    {turn : State → α → Bool → State → Prop}
    (hf : ∀ {s s'}, step setup s = .done none s' → finished s ∧ s' = s)
    (ht : ∀ {s item more s'}, step setup s = .done (some (item, more)) s' → turn s item more s')
    {turns : Nat} {before items : List α}
    (h : iterate (fun items => do
      match ← step with
      | none => return .finish items.reverse
      | some (item, true) => return .again (item :: items)
      | some (item, false) => return .finish (item :: items).reverse) turns before setup s =
        .done items s') :
    ∃ more, items = before.reverse ++ more ∧ Collected finished turn s more s' := by
  induction turns generalizing before s with
  | zero => simp [iterate, stop] at h
  | succ turns ih =>
    obtain ⟨result, s₁, hr, h⟩ := bind_done.1 h
    obtain ⟨item, s₂, hs, hr⟩ := bind_done.1 hr
    match item with
    | none =>
      obtain ⟨rfl, rfl⟩ := pure_done.1 hr
      obtain ⟨rfl, rfl⟩ := pure_done.1 h
      obtain ⟨hs, rfl⟩ := hf hs
      exact ⟨[], by simp, .nil hs⟩
    | some (item, false) =>
      obtain ⟨rfl, rfl⟩ := pure_done.1 hr
      obtain ⟨rfl, rfl⟩ := pure_done.1 h
      exact ⟨[item], by simp, .last (ht hs)⟩
    | some (item, true) =>
      obtain ⟨rfl, rfl⟩ := pure_done.1 hr
      obtain ⟨more, rfl, hm⟩ := ih h
      exact ⟨item :: more, by simp, .cons (ht hs) hm⟩

theorem collect_done {step : Parse (Option (α × Bool))} {finished : State → Prop}
    {turn : State → α → Bool → State → Prop}
    (hf : ∀ {s s'}, step setup s = .done none s' → finished s ∧ s' = s)
    (ht : ∀ {s item more s'}, step setup s = .done (some (item, more)) s' → turn s item more s')
    {items : List α} (h : collect step setup s = .done items s') :
    Collected finished turn s items s' := by
  obtain ⟨turns, s₁, hn, h⟩ := bind_done.1 h
  obtain ⟨-, rfl⟩ := look_done.1 hn
  obtain ⟨more, rfl, hm⟩ := iterate_done hf ht h
  exact hm

end

end Smaug.Parse
