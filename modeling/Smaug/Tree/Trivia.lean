import Smaug.Tree.Basic

/-! # Trivia inside a span

The trivia of a source are in order and apart from each other, so those inside a span are found by
halving: both the ones that start before it and the ones that end within it come first.
-/

namespace Smaug

/-! ## Items that come first -/

def ComeFirst (p : α → Bool) (xs : List α) : Prop :=
  xs.Pairwise fun a b => p b → p a

namespace ComeFirst

variable {p : α → Bool} {x : α} {xs : List α}

theorem tail (h : ComeFirst p (x :: xs)) : ComeFirst p xs :=
  (List.pairwise_cons.1 h).2

/-- After an item without the property no item has it. -/
theorem countP_eq_zero (h : ComeFirst p (x :: xs)) (hx : ¬p x) : xs.countP p = 0 :=
  List.countP_eq_zero.2 fun y hy hp => hx ((List.pairwise_cons.1 h).1 y hy hp)

theorem getElem?_any (h : ComeFirst p xs) (i : Nat) : xs[i]?.any p = decide (i < xs.countP p) := by
  induction xs generalizing i with
  | nil => simp
  | cons x xs ih =>
    by_cases hx : p x
    · cases i with
      | zero => simp [hx]
      | succ i => simp [hx, ih h.tail i]
    · have hn := h.countP_eq_zero hx
      cases i with
      | zero => simp [hx, hn]
      | succ i => simp [hx, ih h.tail i, hn]

theorem filter_eq_take (h : ComeFirst p xs) : xs.filter p = xs.take (xs.countP p) := by
  induction xs with
  | nil => rfl
  | cons x xs ih =>
    by_cases hx : p x
    · simp [hx, ih h.tail]
    · have hn := h.countP_eq_zero hx
      simp [hx, hn, ih h.tail]

/-- Of the items at the front, those without the property are those left after the items with it. -/
theorem filter_not_take (h : ComeFirst p xs) (n : Nat) :
    (xs.take n).filter (fun x => !p x) = (xs.take n).drop (xs.countP p) := by
  induction xs generalizing n with
  | nil => simp
  | cons x xs ih =>
    cases n with
    | zero => simp
    | succ n =>
      by_cases hx : p x
      · simp [hx, ih h.tail]
      · have hn := h.countP_eq_zero hx
        simp [hx, hn, ih h.tail]

end ComeFirst

/-! ## Halving -/

/-- Narrows the `size` places from `base` on down to one, the last at which `p` holds as far as the
places tried show, or `base`. -/
def bisect (xs : Array α) (p : α → Bool) (base size : Nat) : Nat :=
  if _h : 1 < size then
    let half := size / 2
    let middle := base + half
    bisect xs p (if xs[middle]?.any p then middle else base) (size - half)
  else base
termination_by size
decreasing_by omega

/-- The number of items for which `p` holds, where these come before all others. -/
def partitionPoint (xs : Array α) (p : α → Bool) : Nat :=
  let last := bisect xs p 0 xs.size
  if xs[last]?.any p then last + 1 else last

/-- The place found is the last before `n`, where the places before `n` are those where the property
holds. -/
theorem bisect_last {xs : Array α} {p : α → Bool} {n : Nat}
    (hp : ∀ i, xs[i]?.any p = decide (i < n)) {base size : Nat}
    (hb : base = 0 ∨ base < n) (hn : n ≤ base + size) :
    let last := bisect xs p base size
    (last = 0 ∨ last < n) ∧ n ≤ last + 1 := by
  fun_induction bisect xs p base size with
  | case1 base size hlt half middle ih =>
    have hhalf : half = size / 2 := rfl
    have hmiddle : middle = base + half := rfl
    simp only [dite_eq_ite, hp, decide_eq_true_eq] at ih ⊢
    by_cases hm : middle < n
    · rw [if_pos hm] at ih ⊢
      exact ih (.inr hm) (by omega)
    · rw [if_neg hm] at ih ⊢
      exact ih hb (by omega)
  | case2 base size hle => exact ⟨hb, by omega⟩

theorem partitionPoint_eq_countP {xs : Array α} {p : α → Bool} (h : ComeFirst p xs.toList) :
    partitionPoint xs p = xs.toList.countP p := by
  have hp (i : Nat) : xs[i]?.any p = decide (i < xs.toList.countP p) := by
    rw [← h.getElem?_any i, Array.getElem?_toList]
  have hle : xs.toList.countP p ≤ 0 + xs.size := by
    rw [Nat.zero_add]
    exact List.countP_le_length
  obtain ⟨hl, hn⟩ := bisect_last hp (.inl rfl) hle
  simp only [partitionPoint, hp, decide_eq_true_eq]
  split <;> omega

/-! ## The trivia of a tree -/

def Tree.triviaIn (tree : Tree) (span : Span) : List Trivia :=
  let start := partitionPoint tree.trivia (·.span.start < span.start)
  let stop := partitionPoint tree.trivia (·.span.stop ≤ span.stop)
  (tree.trivia.extract start stop).toList

end Smaug
