import Mathlib
import Smaug.Proofs.Parse.Passing

/-! # The turns of loops

Lists and suffixes are read in loops.  Every turn of a loop passes a token, but for the last one,
which ends the loop.
-/

namespace Smaug.Parse

open Grammar

def collectTurn (step : Parse (Option (α × Bool))) (items : List α) :
    Parse (Turn (List α) (List α)) := do
  match ← step with
  | none => return .finish items.reverse
  | some (item, true) => return .again (item :: items)
  | some (item, false) => return .finish (item :: items).reverse

class PassesItem (step : Parse (Option (α × Bool))) : Prop where
  passes {setup : Setup} {s s' : State} {item : α × Bool} (ht : setup.table = .standard)
    (he : s.Ended) (h : step setup s = .done (some item) s') : s'.remaining < s.remaining

theorem collectTurn_passes {step : Parse (Option (α × Bool))} [hp : PassesItem step]
    {setup : Setup} (ht : setup.table = .standard) {s s' : State} (he : s.Ended)
    {items items' : List α} (h : collectTurn step items setup s = .done (.again items') s') :
    s'.remaining < s.remaining := by
  obtain ⟨item, s₁, hs, h⟩ := bind_done.1 h
  rcases item with _ | ⟨item, _ | _⟩
  · cases (pure_done.1 h).1
  · cases (pure_done.1 h).1
  · obtain ⟨-, rfl⟩ := pure_done.1 h
    exact hp.passes ht he hs

/-! ## Names and elements -/

def nextName : Parse (Option (Name × Bool)) := do
  if ← eat .dot then return some (← name, true) else return none

def nextElement (close : Token.Kind) (element : Parse NodeId) : Parse (Option (NodeId × Bool)) := do
  if ← isAt close then return none
  else
    let id ← element
    return some (id, ← eat .comma)

def nextItem (item : Parse NodeId) : Parse (Option (NodeId × Bool)) := do
  if ← look fun s => s.hasTokens && s.kind != .closeCurly then return some (← item, true)
  else return none

theorem path_eq :
    path = (do
      let first ← name
      let more ← collect nextName
      return ⟨first, more, ← look (·.spanFrom first.span.start)⟩) := rfl

theorem delimited_eq (close : Token.Kind) (element : Parse NodeId) :
    delimited close element = (do
      let elements ← collect (nextElement close element)
      let _ ← expectOr close (unexpected [.token .comma, .token close])
      return elements) := rfl

theorem bracedItems_eq (item : Parse NodeId) : bracedItems item = collect (nextItem item) := rfl

instance : Keeps nextName := by unfold nextName; infer_instance

instance (close : Token.Kind) {element : Parse NodeId} [Keeps element] :
    Keeps (nextElement close element) := by
  unfold nextElement; infer_instance

instance {item : Parse NodeId} [Keeps item] : Keeps (nextItem item) := by
  unfold nextItem; infer_instance

instance : PassesItem nextName where
  passes {setup s s' item} ht he h := by
    simp only [nextName, bind_done, eat_done] at h
    obtain ⟨_, _, ⟨rfl, rfl⟩, h⟩ := h
    split at h
    · simp only [bind_done, pure_done] at h
      obtain ⟨_, s₁, hn, -, rfl⟩ := h
      have hk := Kept.skip s .dot
      exact Nat.lt_of_lt_of_le (passes name ht (he.grow hk.toGrown) hn) hk.remaining_le
    · simp [pure_done] at h

instance (close : Token.Kind) {element : Parse NodeId} [Passes element] :
    PassesItem (nextElement close element) where
  passes {setup s s' item} ht he h := by
    simp only [nextElement, bind_done, isAt_done] at h
    obtain ⟨_, _, ⟨rfl, rfl⟩, h⟩ := h
    split at h
    · simp [pure_done] at h
    · simp only [bind_done] at h
      obtain ⟨id, s₁, h, hc⟩ := h
      have hk : Kept s₁ s' := @kept_of_done _ (do return some (id, ← eat .comma)) _ _ _ _ _
        (bind_done.2 hc)
      exact Nat.lt_of_le_of_lt hk.remaining_le (passes element ht he h)

instance {item : Parse NodeId} [Passes item] : PassesItem (nextItem item) where
  passes {setup s s' i} ht he h := by
    simp only [nextItem, bind_done, look_done] at h
    obtain ⟨_, _, ⟨rfl, rfl⟩, h⟩ := h
    split at h
    · simp only [bind_done, pure_done] at h
      obtain ⟨_, s₁, h, -, rfl⟩ := h
      exact passes item ht he h
    · simp [pure_done] at h

/-! ## Parts of rules -/

section
variable (run : Rule → Parse NodeId)

def variant : Parse NodeId := do
  let variant ← run (.pattern .enum false)
  let _ ← eat .comma
  return variant

def nextAttribute : Parse (Option (NodeId × Bool)) := do
  if ← isAt .yieldWord then
    let start := (← advance).span.start
    let type ← typeExpression run
    let item ← pushFrom start (.yieldAttribute type)
    return some (item, ← eat .comma)
  else return none

def nextCase : Parse (Option (NodeId × Bool)) := do
  if ← isAt .caseWord then return some (← matchCase run, true) else return none

def suffixTurn (power : Power) (left : NodeId) : Parse (Turn NodeId NodeId) := do
  match (← given Setup.table).suffix (← look State.kind) with
  | some (next, suffix) =>
    if next.tighter power then return .again (← run (.suffix suffix left next))
    else return .finish left
  | none => return .finish left

theorem attributeList_eq :
    attributeList run = (do
      if ← isAt .yieldWord then collect (nextAttribute run)
      else
        refuse (← errorAt .emptyAttributeList (← look (·.current.span)) [.yieldAttribute])) := rfl

theorem matchStatement_eq :
    matchStatement run = (do
      let start := (← advance).span.start
      let scrutinee ← run (.tuple "tuple")
      let opening := (← expect .openCurly).span
      let cases ← inside '\x7b' "match body" opening do
        let cases ← collect (nextCase run)
        let _ ← expectOr .closeCurly (unexpected [.token .caseWord, .token .closeCurly])
        return cases
      pushFrom start (.matchStatement scrutinee cases)) := rfl

theorem continuation_eq (left : NodeId) (power : Power) :
    continuation run left power = loop (suffixTurn run power) left := rfl

section
variable {setup : Setup} {s : State} {power : Power}
  (hs : ∀ entry ∈ setup.table.suffix s.kind, ¬entry.1.tighter power) (left : NodeId)
include hs

/-- A suffix that does not bind more tightly than `power` is not taken. -/
theorem suffixTurn_loose : suffixTurn run power left setup s = .done (.finish left) s := by
  cases hf : setup.table.suffix s.kind with
  | none =>
    simp only [suffixTurn, Bind.bind, Parse.bind, given, look, hf]
    rfl
  | some entry =>
    have hloose : ¬entry.1.tighter power := hs entry hf
    simp only [suffixTurn, Bind.bind, Parse.bind, given, look, hf, hloose]
    rfl

theorem continuation_loose : continuation run left power setup s = .done left s := by
  change iterate (suffixTurn run power) (s.remaining + 1) left setup s = _
  rw [iterate, bind_done.2 ⟨_, _, suffixTurn_loose run hs left, rfl⟩]

end

end

section
variable {run : Rule → Parse NodeId} [∀ rule, Keeps (run rule)]

instance : Keeps (variant run) := by unfold variant; infer_instance

instance : Keeps (nextAttribute run) := by unfold nextAttribute; infer_instance

instance : Keeps (nextCase run) := by unfold nextCase; infer_instance

instance keeps_suffixTurn (power : Power) (left : NodeId) : Keeps (suffixTurn run power left) :=
  keeps_bind _ fun table => keeps_bind _ fun kind => by split <;> infer_instance

instance : PassesItem (nextAttribute run) where
  passes {setup s s' item} ht he h := by
    simp only [nextAttribute, bind_done, isAt_done] at h
    obtain ⟨_, _, ⟨rfl, rfl⟩, h⟩ := h
    split at h
    · rename_i hy
      exact advance_bind_passes he (State.hasTokens_of_kind (by simpa using hy) (by decide)) h
    · simp [pure_done] at h

variable [Passing run]

instance : Passes (variant run) := by unfold variant; infer_instance

instance : Passes (matchCase run) := by
  have : Passes (expect .caseWord) := passes_expect (by decide)
  unfold matchCase
  infer_instance

instance : PassesItem (nextCase run) where
  passes {setup s s' item} ht he h := by
    simp only [nextCase, bind_done, isAt_done] at h
    obtain ⟨_, _, ⟨rfl, rfl⟩, h⟩ := h
    split at h
    · simp only [bind_done, pure_done] at h
      obtain ⟨_, s₁, h, -, rfl⟩ := h
      exact passes (matchCase run) ht he h
    · simp [pure_done] at h

omit [∀ rule, Keeps (run rule)] [Passing run] in
theorem suffixTurn_again {setup : Setup} (ht : setup.table = .standard) {power : Power}
    {left left' : NodeId} {s s' : State}
    (h : suffixTurn run power left setup s = .done (.again left') s') :
    ∃ next suffix, Fits s (.suffix suffix left next) ∧
      run (.suffix suffix left next) setup s = .done left' s' := by
  simp only [suffixTurn, bind_done, look_done, given_done, ht] at h
  obtain ⟨_, _, ⟨rfl, rfl⟩, _, s, ⟨rfl, rfl⟩, h⟩ := h
  cases hf : Table.standard.suffix s.kind with
  | none =>
    rw [hf] at h
    cases (pure_done.1 h).1
  | some entry =>
    obtain ⟨next, suffix⟩ := entry
    simp only [hf] at h
    split at h
    · obtain ⟨_, s₁, h, hr⟩ := bind_done.1 h
      obtain ⟨ha, rfl⟩ := pure_done.1 hr
      cases ha
      exact ⟨next, suffix, hf, h⟩
    · cases (pure_done.1 h).1

omit [∀ rule, Keeps (run rule)] in
theorem suffixTurn_passes {setup : Setup} (ht : setup.table = .standard) {power : Power}
    {left left' : NodeId} {s s' : State} (he : s.Ended)
    (h : suffixTurn run power left setup s = .done (.again left') s') :
    s'.remaining < s.remaining := by
  obtain ⟨next, suffix, hf, h⟩ := suffixTurn_again ht h
  exact Passing.passes ht hf rfl he h

end

/-- The turns of the loops in the rules, where `run` is the meaning of the rules that they call. -/
inductive LoopTurn (run : Rule → Parse NodeId) : {α β : Type} → (α → Parse (Turn α β)) → Prop
  | name : LoopTurn run (collectTurn nextName)
  | value (close : Token.Kind) : LoopTurn run (collectTurn (nextElement close (value run)))
  | pattern : LoopTurn run (collectTurn (nextElement .closeParen (run (.pattern .any true))))
  | statement : LoopTurn run (collectTurn (nextItem (run (.form .statement))))
  | variant : LoopTurn run (collectTurn (nextItem (variant run)))
  | attribute : LoopTurn run (collectTurn (nextAttribute run))
  | case : LoopTurn run (collectTurn (nextCase run))
  | suffix (power : Power) : LoopTurn run (suffixTurn run power)

/-- A loop that goes on has passed a token. -/
theorem LoopTurn.passes {run : Rule → Parse NodeId} [∀ rule, Keeps (run rule)] [Passing run]
    {turn : α → Parse (Turn α β)} (h : LoopTurn run turn) {setup : Setup}
    (ht : setup.table = .standard) {s s' : State} (he : s.Ended) {a a' : α}
    (hd : turn a setup s = .done (.again a') s') : s'.remaining < s.remaining := by
  cases h with
  | suffix power => exact suffixTurn_passes ht he hd
  | _ => exact collectTurn_passes ht he hd

end Smaug.Parse
