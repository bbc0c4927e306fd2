import Mathlib
import Smaug.Proofs.Parse.Expected.Basic

/-! # Lists on two inputs that part

Whether a list goes on is told by the current token, and what ends it is read behind it.  So at the
place where two inputs part, one may see another item where the other sees the end of the list.
The list and what ends it therefore are followed together.
-/

namespace Smaug.Parse

instance : LawfulMonad Parse := LawfulMonad.mk' Parse
  (fun step => by
    funext setup s
    change Parse.bind step _ setup s = step setup s
    unfold Parse.bind
    cases step setup s <;> rfl)
  (fun _ _ => rfl)
  (fun step _ _ => by
    funext setup s
    simp only [Bind.bind, Parse.bind]
    cases step setup s <;> rfl)

theorem ite_bind {c : Prop} [Decidable c] {step other : Parse α} {next : α → Parse β} :
    (if c then step else other) >>= next = if c then step >>= next else other >>= next := by
  split <;> rfl

def collectInto (step : Parse (Option (α × Bool))) (tail : List α → Parse β) (turns : Nat)
    (items : List α) : Parse β := iterate (collectTurn step) turns items >>= tail

section
variable {f : Fork} {step step' : Parse (Option (α × Bool))} {tail tail' : List α → Parse β}

theorem collectInto_succ (turns : Nat) (items : List α) :
    collectInto step tail (turns + 1) items = (do
      match ← step with
      | none => tail items.reverse
      | some (item, true) => collectInto step tail turns (item :: items)
      | some (item, false) => tail (item :: items).reverse) := by
  funext setup s
  simp only [collectInto, iterate, collectTurn, Bind.bind, Parse.bind]
  cases step setup s with
  | stopped => rfl
  | done item => rcases item with _ | ⟨_, _ | _⟩ <;> rfl

instance [Keeps step] [∀ items, Keeps (tail items)] (turns : Nat) (items : List α) :
    Keeps (collectInto step tail turns items) :=
  have : Keeps (iterate (collectTurn step) turns items) := keeps_iterate turns items
  inferInstanceAs (Keeps (_ >>= _))

/-- However many turns are allowed, the second of the lists is allowed as many. -/
theorem follows_collect
    (h : ∀ {turns turns' : Nat}, turns ≤ turns' → ∀ items,
      Follows f (collectInto step tail turns items) (collectInto step' tail' turns' items)) :
    Follows f (collect step >>= tail) (collect step' >>= tail') where
  follows ht _ _ hs := (h (Nat.succ_le_succ hs.remaining_le) []).follows ht hs

/-- By induction on the turns: a turn, if those that follow it go the same way. -/
theorem follows_turns
    (h : ∀ {turns turns' : Nat}, (∀ items, Follows f (collectInto step tail turns items)
      (collectInto step' tail' turns' items)) → ∀ items,
      Follows f (collectInto step tail (turns + 1) items)
        (collectInto step' tail' (turns' + 1) items)) :
    Follows f (collect step >>= tail) (collect step' >>= tail') := by
  refine follows_collect fun {turns turns'} hle => ?_
  induction turns generalizing turns' with
  | zero => exact fun items => ⟨fun _ _ _ _ => .breaksOff (.inl trivial)⟩
  | succ turns ih =>
    obtain ⟨turns', rfl⟩ : ∃ n, turns' = n + 1 := ⟨turns' - 1, by omega⟩
    exact h (ih (Nat.le_of_succ_le_succ hle))

end

/-! ## Elements with commas between them -/

section
variable {f : Fork} {close : Token.Kind} {element element' : Parse NodeId}

theorem elementsInto_succ {tail : List NodeId → Parse α} (turns : Nat) (items : List NodeId) :
    collectInto (nextElement close element) tail (turns + 1) items = (do
      if ← isAt close then tail items.reverse
      else
        let id ← element
        if ← eat .comma then collectInto (nextElement close element) tail turns (id :: items)
        else tail (id :: items).reverse) := by
  rw [collectInto_succ]
  simp only [nextElement, bind_assoc, ite_bind, pure_bind]
  congr 1
  funext b
  congr 1
  congr 1
  funext id
  congr 1
  funext more
  cases more <;> rfl

/-- What comes behind the elements is at the place only if the new token is no comma. -/
theorem follows_elements {tail : List NodeId → Parse α} [∀ items, Keeps (tail items)]
    [Keeps element] [Keeps element'] [Follows f element element']
    (hp : ∀ {items} {setup : Setup} {s : State}, s.Ended → s.kind = close →
      (tail items setup s).Passed s.remaining)
    (hb : ∀ items, FollowsBefore f (tail items) (tail items))
    (ha : f.put.kind ≠ .comma → ∀ items, FollowsAt f (tail items) (tail items)) :
    Follows f (collect (nextElement close element) >>= tail)
      (collect (nextElement close element') >>= tail) := by
  refine follows_turns fun {turns turns'} ih items => ?_
  rw [elementsInto_succ, elementsInto_succ]
  have hrest (id : NodeId) : Follows f
      (eat .comma >>= fun more => if more then
        collectInto (nextElement close element) tail turns (id :: items)
        else tail (id :: items).reverse)
      (eat .comma >>= fun more => if more then
        collectInto (nextElement close element') tail turns' (id :: items)
        else tail (id :: items).reverse) :=
    follows_eat (ih (id :: items)) (hb _) fun hput => ha hput _
  have hother : Follows f (element >>= _) (element' >>= _) :=
    follows_bind (fun _ => inferInstance) (fun _ => inferInstance) hrest
  exact follows_sign isAt_before (fun _ he hk => hp he (beq_iff_eq.1 hk))
    (fun _ he hk => hp he (beq_iff_eq.1 hk)) (hb _) (followsBefore _ _) fun ht hs _ _ =>
    hother.follows ht hs

instance [hi : close.Inner] [Keeps element] [Keeps element'] [Follows f element element'] :
    Follows f (delimited close element) (delimited close element') := by
  rw [delimited_eq, delimited_eq]
  refine follows_elements (fun {items setup s} he hk => ?_) (fun _ => ?_) fun hput _ => ?_
  · refine passed_bind ?_
    rw [expectOr_apply, if_pos hk]
    exact he.remaining_advance (State.hasTokens_of_kind hk hi.ne)
  · exact (followsBefore_expectOr _ _).bind fun _ => inferInstance
  · have : Follows f (expectOr close (unexpected [.token .comma, .token close]))
        (expectOr close (unexpected [.token .comma, .token close])) :=
      follows_expectOr _ _ fun hm => (f.met.kind_of_pair hm).resolve_left hput
    exact followsAt _ _

end

/-! ## Items up to a closing brace or the end of the input -/

/-- Whether a list that a brace or the end of the input ends goes on at the current token. -/
def State.goesOn (s : State) : Bool := s.hasTokens && s.kind != .closeCurly

theorem goesOn_iff {s : State} :
    s.goesOn ↔ s.current.kind ≠ .eof ∧ s.current.kind ≠ .closeCurly := by
  simp [State.goesOn, State.hasTokens, State.kind]

section
variable {f : Fork} {item item' : Parse NodeId}

theorem itemsInto_succ {tail : List NodeId → Parse α} (turns : Nat) (items : List NodeId) :
    collectInto (nextItem item) tail (turns + 1) items = (do
      if ← look State.goesOn then
        let id ← item
        collectInto (nextItem item) tail turns (id :: items)
      else tail items.reverse) := by
  rw [collectInto_succ]
  simp only [nextItem, bind_assoc, ite_bind, pure_bind]
  rfl

/-- The items are told by tokens that do not end the list.  Where only the first list has ended at
the place, it has to be known what comes behind it. -/
theorem follows_items {tail : List NodeId → Parse α} (wants : List Expected)
    [∀ items, Keeps (tail items)] [Keeps item] [Keeps item'] [Passes item] [Takes item wants]
    [h : Follows f item item'] [htail : ∀ items, Follows f (tail items) (tail items)]
    (hw : ∀ expected ∈ wants, ∀ token, expected.Met token →
      token.kind ≠ .eof ∧ token.kind ≠ .closeCurly)
    (hx : ∀ {items} {setup : Setup} {s s' : State}, setup.table = .standard → Forked f s s' →
      f.At s → s.goesOn = false → s'.goesOn → (tail items setup s).Excused f ∨
        (item' setup s').Passed s'.remaining) :
    Follows f (collect (nextItem item) >>= tail) (collect (nextItem item') >>= tail) := by
  refine follows_turns fun {turns turns'} ih items => ?_
  rw [itemsInto_succ, itemsInto_succ]
  have hmore : Follows f
      (item >>= fun id => collectInto (nextItem item) tail turns (id :: items))
      (item' >>= fun id => collectInto (nextItem item') tail turns' (id :: items)) :=
    follows_bind (fun _ => inferInstance) (fun _ => inferInstance) fun id => ih (id :: items)
  refine follows_of (followsBefore_look (fun hs hb => ?_) fun b => followsBefore_ite
    (followsBefore _ _) (followsBefore _ _)) ⟨fun {setup} ht s s' hs hat => ?_⟩
  · rw [State.goesOn, State.hasTokens, hs.kind hb]
    rfl
  · change ((if s.goesOn then item >>= _ else tail items.reverse) setup s).Follows f
      ((if s'.goesOn then item' >>= _ else tail items.reverse) setup s')
    cases hg : s.goesOn with
    | true =>
      cases hg' : s'.goesOn with
      | true => exact hmore.follows ht hs
      | false =>
        refine hs.apart hat (.inl (bind_excused (hat.excused hs.ended ht fun hwants => ?_)))
        have hmem := (Takes.takes ht hs.ended hs.ended' hs.depth hwants).1
        have hput := goesOn_iff.2 ((hs.current_at hat).2 ▸ hw _ hmem _ f.met)
        rw [hg'] at hput
        cases hput
    | false =>
      cases hg' : s'.goesOn with
      | true => exact hs.apart hat ((hx ht hs hat hg hg').imp_right passed_bind)
      | false => exact (htail _).follows ht hs

/-- Items between braces. -/
theorem follows_braced (wants : List Expected) [Keeps item] [Keeps item'] [Passes item]
    [Takes item wants] [Follows f item item']
    (hw : ∀ expected ∈ wants, ∀ token, expected.Met token →
      token.kind ≠ .eof ∧ token.kind ≠ .closeCurly) :
    Follows f (do
        let items ← bracedItems item
        let _ ← expect .closeCurly
        return items)
      (do
        let items ← bracedItems item'
        let _ ← expect .closeCurly
        return items) := by
  rw [bracedItems_eq, bracedItems_eq]
  refine follows_items wants hw fun {items setup s s'} ht hs hat hg hg' => .inl (bind_excused ?_)
  -- A closing brace is passed, and at the end of the input nothing else is wanted.
  refine hat.excused hs.ended ht fun hwants => ?_
  have hmem := (Takes.takes ht hs.ended hs.ended' hs.depth hwants).1
  have hput := (goesOn_iff.1 hg').2
  rw [(hs.current_at hat).2] at hput
  exact hput (f.met.of_singleton hmem)

end

end Smaug.Parse
