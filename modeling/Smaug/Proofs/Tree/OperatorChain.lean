import Mathlib
import Smaug.Proofs.Token.Spaced
import Smaug.Proofs.Tree.Power
import Smaug.Text.Character

/-! # Operator chains

Operands by themselves with operators between them, and how they group.  Which operator comes out on
top is seen from the whole chain: the last one of those that bind least tightly.  A parser that goes
from left to right finds that grouping too, since it closes each operator before the next one that
binds no more tightly.
-/

namespace Smaug

structure Atom where
  kind : Token.Kind
  value : String
  text : String
  isOperand : kind ∈ [.identifier, .builtIn, .string, .integer]
  bounded : kind = .integer → (Text.integer? value).isSome
  spells : Token.Spells ⟨kind, value, default⟩ text.toList

def Atom.shape (atom : Atom) (span : Span) : Shape :=
  match atom.kind with
  | .integer => .integer ((Text.integer? atom.value).getD 0)
  | .string => .string atom.value
  | kind => .identifier (.single ⟨atom.value, kind == .builtIn, span⟩)

abbrev OperatorChain := List (BinaryOp × Atom)

/-- Operands and operators, each with the operands it takes. -/
inductive Grouping where
  | operand (atom : Atom)
  | operation (op : BinaryOp) (lhs rhs : Grouping)

namespace Grouping

def IsAt (nodes : Array Node) : Grouping → NodeId → Prop
  | .operand atom, id => ∃ span, nodes[id]? = some ⟨atom.shape span, span⟩
  | .operation op left right, id => ∃ lhs rhs span, nodes[id]? = some ⟨.binary op lhs rhs, span⟩ ∧
      left.IsAt nodes lhs ∧ right.IsAt nodes rhs

theorem IsAt.mono {nodes nodes' : Array Node}
    (hn : ∀ {i : NodeId} {node : Node}, nodes[i]? = some node → nodes'[i]? = some node)
    {grouping : Grouping} {id : NodeId} (h : grouping.IsAt nodes id) :
    grouping.IsAt nodes' id := by
  induction grouping generalizing id with
  | operand atom =>
    obtain ⟨span, h⟩ := h
    exact ⟨span, hn h⟩
  | operation op left right ihl ihr =>
    obtain ⟨lhs, rhs, span, h, hl, hr⟩ := h
    exact ⟨lhs, rhs, span, hn h, ihl hl, ihr hr⟩

theorem IsAt.exists_node {nodes : Array Node} {grouping : Grouping} {id : NodeId}
    (h : grouping.IsAt nodes id) : ∃ node, nodes[id]? = some node := by
  cases grouping with
  | operand atom =>
    obtain ⟨span, h⟩ := h
    exact ⟨_, h⟩
  | operation op left right =>
    obtain ⟨lhs, rhs, span, h, -⟩ := h
    exact ⟨_, h⟩

end Grouping

namespace OperatorChain

/-- The last operator of the weakest tier in a chain, with the operand behind it and what stands
before and after both. -/
def splitWeakest : OperatorChain → Option (OperatorChain × BinaryOp × Atom × OperatorChain)
  | [] => none
  | (op, atom) :: rest =>
    match splitWeakest rest with
    | none => some ([], op, atom, [])
    | some (before, weakest, operand, after) =>
      if op.tier.rank < weakest.tier.rank then some ([], op, atom, rest)
      else some ((op, atom) :: before, weakest, operand, after)

theorem splitWeakest_ne_none {chain : OperatorChain} (h : chain ≠ []) :
    splitWeakest chain ≠ none := by
  cases chain with
  | nil => exact absurd rfl h
  | cons entry rest =>
    rw [splitWeakest]
    split
    · exact Option.some_ne_none _
    · split <;> exact Option.some_ne_none _

theorem splitWeakest_eq {chain before after : OperatorChain} {op : BinaryOp} {operand : Atom}
    (h : splitWeakest chain = some (before, op, operand, after)) :
    chain = before ++ (op, operand) :: after ∧
      (∀ entry ∈ before, op.tier.rank ≤ entry.1.tier.rank) ∧
      (∀ entry ∈ after, op.tier.rank < entry.1.tier.rank) := by
  induction chain generalizing before op operand after with
  | nil => cases h
  | cons entry rest ih =>
    obtain ⟨first, atom⟩ := entry
    rw [splitWeakest] at h
    split at h
    · rename_i hs
      cases h
      have hrest : rest = [] := by
        by_contra hne
        exact splitWeakest_ne_none hne hs
      simp [hrest]
    · rename_i hs
      obtain ⟨hrest, hbefore, hafter⟩ := ih hs
      split at h
      · rename_i hlt
        cases h
        refine ⟨rfl, by simp, ?_⟩
        rw [hrest]
        intro entry he
        rcases List.mem_append.1 he with he | he
        · exact Nat.lt_of_lt_of_le hlt (hbefore entry he)
        · rcases List.mem_cons.1 he with rfl | he
          · exact hlt
          · exact Nat.lt_trans hlt (hafter entry he)
      · rename_i hlt
        cases h
        exact ⟨by rw [hrest, List.cons_append],
          List.forall_mem_cons.2 ⟨Nat.le_of_not_lt hlt, hbefore⟩, hafter⟩

/-- Where the last operator of the weakest tier stands, a chain is split. -/
theorem splitWeakest_append {before after : OperatorChain} {op : BinaryOp} {operand : Atom}
    (hb : ∀ entry ∈ before, op.tier.rank ≤ entry.1.tier.rank)
    (ha : ∀ entry ∈ after, op.tier.rank < entry.1.tier.rank) :
    splitWeakest (before ++ (op, operand) :: after) = some (before, op, operand, after) := by
  induction before with
  | nil =>
    rw [List.nil_append, splitWeakest]
    split
    · rename_i hs
      have hafter : after = [] := by
        by_contra hne
        exact splitWeakest_ne_none hne hs
      rw [hafter]
    · rename_i first weakest atom last hs
      obtain ⟨hafter, -, -⟩ := splitWeakest_eq hs
      have hlt : op.tier.rank < weakest.tier.rank := ha (weakest, atom) (by simp [hafter])
      rw [if_pos hlt]
  | cons entry before ih =>
    obtain ⟨hle, hb⟩ := List.forall_mem_cons.1 hb
    rw [List.cons_append, splitWeakest, ih hb]
    simp only [if_neg (Nat.not_lt_of_le hle)]

/-- The reference grouping of a chain behind a first operand: the operand by itself, or else the
last operator of the weakest tier, with what stands on either side grouped in the same way. -/
def group (first : Grouping) (chain : OperatorChain) : Grouping :=
  match _h : splitWeakest chain with
  | none => first
  | some (before, op, operand, after) =>
    .operation op (group first before) (group (.operand operand) after)
termination_by chain.length
decreasing_by
  all_goals
    rw [(splitWeakest_eq _h).1, List.length_append, List.length_cons]
    omega

theorem group_nil (first : Grouping) : group first [] = first := by
  rw [group]
  rfl

theorem group_append {before after : OperatorChain} {op : BinaryOp} {operand : Atom}
    (first : Grouping) (hb : ∀ entry ∈ before, op.tier.rank ≤ entry.1.tier.rank)
    (ha : ∀ entry ∈ after, op.tier.rank < entry.1.tier.rank) :
    group first (before ++ (op, operand) :: after) =
      .operation op (group first before) (group (.operand operand) after) := by
  rw [group]
  split
  · rename_i hs
    rw [splitWeakest_append hb ha] at hs
    cases hs
  · rename_i hs
    rw [splitWeakest_append hb ha] at hs
    cases hs
    rfl

/-- An operator may be closed before the next one that binds no more tightly: it takes what stands
before it, and on its other side the operators up to there. -/
theorem group_cons {high low : OperatorChain} {op : BinaryOp} {operand : Atom} (first : Grouping)
    (hh : ∀ entry ∈ high, op.tier.rank < entry.1.tier.rank)
    (hl : ∀ entry ∈ low.head?, entry.1.tier.rank ≤ op.tier.rank) :
    group first ((op, operand) :: (high ++ low)) =
      group (.operation op first (group (.operand operand) high)) low := by
  -- By induction on what is left: the weakest operator of all is the weakest in there.
  induction hn : low.length using Nat.strong_induction_on generalizing low with
  | _ n ih =>
    cases hs : splitWeakest low with
    | none =>
      obtain rfl : low = [] := by
        by_contra hne
        exact splitWeakest_ne_none hne hs
      have hsplit : group first ([] ++ (op, operand) :: high) =
          .operation op (group first []) (group (.operand operand) high) :=
        group_append first (by simp) hh
      rw [group_nil] at hsplit
      rw [List.append_nil, group_nil]
      exact hsplit
    | some split =>
      obtain ⟨before, weakest, last, after⟩ := split
      obtain ⟨rfl, hb, ha⟩ := splitWeakest_eq hs
      have hweakest : weakest.tier.rank ≤ op.tier.rank := by
        cases before with
        | nil => exact hl (weakest, last) rfl
        | cons entry before =>
          exact Nat.le_trans (hb entry List.mem_cons_self) (hl entry rfl)
      have hbefore : ∀ entry ∈ (op, operand) :: (high ++ before),
          weakest.tier.rank ≤ entry.1.tier.rank := by
        intro entry he
        rcases List.mem_cons.1 he with rfl | he
        · exact hweakest
        · rcases List.mem_append.1 he with he | he
          · exact Nat.le_of_lt (Nat.lt_of_le_of_lt hweakest (hh entry he))
          · exact hb entry he
      have hhead : ∀ entry ∈ before.head?, entry.1.tier.rank ≤ op.tier.rank := by
        intro entry he
        cases before with
        | nil => cases he
        | cons => exact hl entry he
      have hshorter : before.length < n := by
        rw [← hn, List.length_append, List.length_cons]
        omega
      calc group first ((op, operand) :: (high ++ (before ++ (weakest, last) :: after)))
          = group first (((op, operand) :: (high ++ before)) ++ (weakest, last) :: after) := by
            rw [List.cons_append, List.append_assoc]
        _ = .operation weakest (group first ((op, operand) :: (high ++ before)))
              (group (.operand last) after) := group_append first hbefore ha
        _ = .operation weakest (group (.operation op first (group (.operand operand) high)) before)
              (group (.operand last) after) := by rw [ih _ hshorter hhead rfl]
        _ = _ := (group_append _ hb ha).symm

/-! ## Reading on at some power -/

def binds (power : Power) (entry : BinaryOp × Atom) : Bool := entry.1.tier.tighter power

theorem binds_iff {power : Power} {entry : BinaryOp × Atom} :
    binds power entry ↔ power.rank < entry.1.tier.rank := decide_eq_true_iff

/-- The operators of a chain that bind more tightly than `power`, up to the first that does not. -/
def above (power : Power) (chain : OperatorChain) : OperatorChain := chain.takeWhile (binds power)

/-- What is left of a chain from the first operator on that binds no more tightly than `power`. -/
def below (power : Power) (chain : OperatorChain) : OperatorChain := chain.dropWhile (binds power)

theorem above_append_below (power : Power) (chain : OperatorChain) :
    chain.above power ++ chain.below power = chain := List.takeWhile_append_dropWhile

theorem length_below_le (power : Power) (chain : OperatorChain) :
    (chain.below power).length ≤ chain.length := List.length_dropWhile_le _ _

theorem binds_of_mem_above {power : Power} {chain : OperatorChain} {entry : BinaryOp × Atom}
    (h : entry ∈ chain.above power) : binds power entry := List.mem_takeWhile_imp h

section
variable {power : Power} {entry : BinaryOp × Atom} (rest : OperatorChain)

/-- What follows the operators that bind more tightly than the first binds no more tightly. -/
theorem head_above_below {next : BinaryOp × Atom}
    (h : next ∈ ((rest.below entry.1.tier).above power).head?) :
    next.1.tier.rank ≤ entry.1.tier.rank := by
  cases hb : rest.below entry.1.tier with
  | nil => simp [hb, above] at h
  | cons found more =>
    have hnot := List.head?_dropWhile_not (binds entry.1.tier) rest
    rw [show (rest.dropWhile (binds entry.1.tier)).head? = some found by
      rw [show rest.dropWhile _ = _ from hb, List.head?_cons]] at hnot
    have hle : found.1.tier.rank ≤ entry.1.tier.rank := by
      rw [← Nat.not_lt, ← binds_iff]
      exact Bool.not_eq_true _ ▸ hnot
    rw [hb, above, List.takeWhile_cons] at h
    split at h
    · cases h
      exact hle
    · cases h

theorem binds_of_mem_above_tier (h : binds power entry) :
    ∀ next ∈ rest.above entry.1.tier, binds power next := fun _ hn =>
  binds_iff.2 (Nat.lt_trans (binds_iff.1 h) (binds_iff.1 (binds_of_mem_above hn)))

theorem above_cons (h : binds power entry) :
    above power (entry :: rest) =
      entry :: (rest.above entry.1.tier ++ (rest.below entry.1.tier).above power) := by
  conv_lhs => rw [← above_append_below entry.1.tier rest]
  rw [above, List.takeWhile_cons_of_pos h,
    List.takeWhile_append_of_pos (binds_of_mem_above_tier rest h)]
  rfl

theorem below_cons (h : binds power entry) :
    below power (entry :: rest) = (rest.below entry.1.tier).below power := by
  conv_lhs => rw [← above_append_below entry.1.tier rest]
  rw [below, List.dropWhile_cons_of_pos h,
    List.dropWhile_append_of_pos (binds_of_mem_above_tier rest h)]
  rfl

/-- What is read at some power groups as a whole: the first operator takes what binds more tightly
than itself, and the rest goes on behind that. -/
theorem group_above (first : Grouping) (h : binds power entry) :
    group first (above power (entry :: rest)) =
      group (.operation entry.1 first (group (.operand entry.2) (rest.above entry.1.tier)))
        ((rest.below entry.1.tier).above power) := by
  rw [above_cons rest h]
  exact group_cons first (fun _ hn => binds_iff.1 (binds_of_mem_above hn))
    fun _ hn => head_above_below rest hn

end

end OperatorChain

end Smaug
