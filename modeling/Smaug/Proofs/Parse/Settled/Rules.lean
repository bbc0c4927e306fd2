import Mathlib
import Smaug.Proofs.Parse.Settled.Basic

/-! # Rules settle

At one token a rule calls only rules of lower rank, and there are four ranks.  So the calls of rules
nest no deeper than the tokens left allow, whatever nesting of expressions is allowed.
-/

namespace Smaug

/-- The rank of a rule: at one token it calls rules of lower rank only. -/
def Rule.rank : Rule → Nat
  | .form .statement | .form .signature | .suffix .. | .pattern .named _ | .pattern .literal _ => 1
  | .expression _ | .continuation .. | .pattern .any _ => 2
  | .form .typeExpression => 3
  | _ => 0

theorem Rule.rank_le (rule : Rule) : rule.rank ≤ 3 := by
  unfold rank
  split <;> decide

namespace Parse

open Grammar

/-! ## Names and lists -/

section
variable {room : Nat}

instance : Settles room nextName := by unfold nextName; infer_instance

instance : Settles room path := by rw [path_eq]; infer_instance

instance (close : Token.Kind) {element : Parse NodeId} [Keeps element] [Settles room element] :
    Settles room (nextElement close element) := by
  unfold nextElement; infer_instance

instance (close : Token.Kind) {element : Parse NodeId} [Keeps element] [Settles room element]
    [Passes element] : Settles room (delimited close element) := by
  rw [delimited_eq]; infer_instance

instance {item : Parse NodeId} [Keeps item] [Settles room item] :
    Settles room (nextItem item) := by
  unfold nextItem; infer_instance

instance {item : Parse NodeId} [Keeps item] [Settles room item] [Passes item] :
    Settles room (bracedItems item) := by
  rw [bracedItems_eq]; infer_instance

end

/-! ## Rules -/

section
variable {room : Nat}

instance : Settles room importStatement := by unfold importStatement; infer_instance

instance : Settles room externalModule := by unfold externalModule; infer_instance

instance : Settles room external := by unfold external; infer_instance

instance : Settles room primary where
  settles {setup s} ht hs := by
    unfold primary
    have hl : (look State.current setup s).IsSettled := trivial
    refine bind_isSettled hl fun token s' ho => ?_
    obtain ⟨rfl, rfl⟩ := look_done.1 ho
    generalize s'.current.kind = kind
    split
    · cases Text.integer? s'.current.value with
      | none => exact rfl
      | some value => trivial
    · trivial
    iterate 2
      have h : Settles room (do
          let name ← name
          push (.identifier (.single name)) name.span) := inferInstance
      exact h.settles ht hs
    · have h : Settles room (do refuse (← unexpected [.expression]) : Parse NodeId) := inferInstance
      exact h.settles ht hs

end

class Serves (room : Nat) (run : Rule → Parse NodeId) : Prop where
  settles {rule : Rule} {setup : Setup} {s : State} (ht : setup.table = .standard)
    (hf : Fits s rule) (hl : ∀ left ∈ rule.left, left < s.nodes.size)
    (hs : s.Within room) : (run rule setup s).IsSettled

class Adds (run : Rule → Parse NodeId) : Prop where
  adds {rule : Rule} {setup : Setup} {s s' : State} {id : NodeId}
    (ht : setup.table = .standard) (hf : Fits s rule)
    (hl : ∀ left ∈ rule.left, left < s.nodes.size) (h : run rule setup s = .done id s') :
    id < s'.nodes.size

section
variable {room : Nat} {run : Rule → Parse NodeId} [∀ rule, Keeps (run rule)] [Serves room run]
set_option synthInstance.maxSize 512

instance (rule : Rule) [hr : rule.Free] : Settles room (run rule) where
  settles ht hs := Serves.settles ht (hr.fits _) (by simp [hr.left]) hs

instance : Settles room (value run) := inferInstanceAs (Settles room (run _))

instance : Settles room (typeExpression run) := inferInstanceAs (Settles room (run _))

instance : Settles room (annotatedType run) := by unfold annotatedType; infer_instance

instance : Settles room (nextAttribute run) := by unfold nextAttribute; infer_instance

instance : Settles room (attributeList run) := by
  have : Settles room (do
      refuse (← errorAt .emptyAttributeList (← look (·.current.span)) [.yieldAttribute]) :
        Parse (List NodeId)) := ⟨fun _ _ => rfl⟩
  rw [attributeList_eq]; infer_instance

instance : Settles room (signatureAttributes run) := by unfold signatureAttributes; infer_instance

instance : Settles room (statementOrBlock run) := by unfold statementOrBlock; infer_instance

instance : Settles room (elseBranch run) := by unfold elseBranch; infer_instance

instance (start : Nat) : Settles room (letVariable run start) := by
  unfold letVariable; infer_instance

instance : Settles room (moreAttributes run) := by unfold moreAttributes; infer_instance

instance (note : String) (expected : List Expected) :
    Settles room (body run note expected) := by
  unfold body
  refine settles_bind (look State.kind) fun kind => ?_
  split <;> infer_instance

instance : Settles room (casePattern run) := by unfold casePattern; infer_instance

instance : Settles room (matchCase run) := by unfold matchCase; infer_instance

instance : Settles room (nextCase run) := by unfold nextCase; infer_instance

instance : Settles room (rangeHead run) where
  settles {setup s} ht hs := by
    have hp := settles room (run (.pattern .any false)) ht (hs.kept (.advance s))
    rw [rangeHead_apply]
    split
    · split
      · split <;> trivial
      · trivial
      · rename_i why s' hne ho
        rw [ho] at hp
        cases why with
        | error error => exact absurd rfl (hne error)
        | missingNode => exact hp
        | exhausted => exact hp
    · trivial

instance (start : Nat) : Settles room (letFunction run start) := by
  unfold letFunction; infer_instance

instance (start : Nat) : Settles room (letStruct run start) := by unfold letStruct; infer_instance

instance : Settles (room + 1) (restPattern run) := by unfold restPattern; infer_instance

instance (allowDefault : Bool) : Settles (room + 1) (identifierPattern run allowDefault) := by
  unfold identifierPattern; infer_instance

instance : Settles (room + 1) (enumPattern run) := by unfold enumPattern; infer_instance

section
variable {setup : Setup} (ht : setup.table = .standard) {s : State}
  (hs : s.Within (room + 1))
include ht hs

theorem doStatement_isSettled (hk : s.kind = .doWord) : (doStatement run setup s).IsSettled :=
  advance_bind_isSettled ht hs (State.hasTokens_of_kind hk (by decide))

theorem returnStatement_isSettled (hk : s.kind = .returnWord) :
    (returnStatement run setup s).IsSettled :=
  advance_bind_isSettled ht hs (State.hasTokens_of_kind hk (by decide))

theorem ifStatement_isSettled (hk : s.kind = .ifWord) : (ifStatement run setup s).IsSettled :=
  advance_bind_isSettled ht hs (State.hasTokens_of_kind hk (by decide))

theorem eachStatement_isSettled (hk : s.kind = .eachWord) :
    (eachStatement run setup s).IsSettled := by
  refine @advance_bind_isSettled _ _ _ _ _
    (fun token => settles_bind (rangeHead run) fun head => ?_) ht hs
    (State.hasTokens_of_kind hk (by decide))
  split <;> infer_instance

theorem matchStatement_isSettled (hk : s.kind = .matchWord) :
    (matchStatement run setup s).IsSettled := by
  rw [matchStatement_eq]
  exact advance_bind_isSettled ht hs (State.hasTokens_of_kind hk (by decide))

end

/-! ### Lists of what passes tokens -/

section
variable [Passing run]

instance (construct : String) (opening : Span) :
    Settles room (bracedStatements run construct opening) := by
  unfold bracedStatements; infer_instance

instance : Settles room (statementList run) := by unfold statementList; infer_instance

instance (start : Nat) : Settles room (letEnum run start) := by
  unfold letEnum
  infer_instance

instance : Settles (room + 1) (grouping run) := by unfold grouping; infer_instance

instance (construct : String) : Settles (room + 1) (tuple run construct) := by
  unfold tuple; infer_instance

instance : Settles (room + 1) (array run) := by unfold array; infer_instance

instance : Settles (room + 1) (block run) := by unfold block; infer_instance

instance : Settles (room + 1) (tuplePattern run) := by unfold tuplePattern; infer_instance

theorem letStatement_isSettled {setup : Setup} (ht : setup.table = .standard) {s : State}
    (hs : s.Within (room + 1)) (hk : s.kind = .letWord) :
    (letStatement run setup s).IsSettled := by
  refine @advance_bind_isSettled _ _ _ _ _
    (fun token => settles_bind (look State.kind) fun kind => ?_) ht hs
    (State.hasTokens_of_kind hk (by decide))
  split <;> infer_instance

/-! ### Rules that look at the nodes before them -/

variable [Adds run] {setup : Setup} (ht : setup.table = .standard) {s : State}
  (hs : s.Within (room + 1))

omit [∀ rule, Keeps (run rule)] [Serves room run] [Passing run] in
theorem free_adds {rule : Rule} [hr : rule.Free] (ht : setup.table = .standard) {s s' : State}
    {id : NodeId} (h : run rule setup s = .done id s') : id < s'.nodes.size :=
  Adds.adds ht (hr.fits s) (by simp [hr.left]) h

omit [∀ rule, Keeps (run rule)] [Serves room run] [Passing run] in
theorem suffixTurn_adds (ht : setup.table = .standard) {power : Power} {left left' : NodeId}
    {s s' : State} (hl : left < s.nodes.size)
    (h : suffixTurn run power left setup s = .done (.again left') s') : left' < s'.nodes.size := by
  obtain ⟨next, suffix, hf, h⟩ := suffixTurn_again ht h
  exact Adds.adds ht hf (List.forall_mem_singleton.2 hl) h

theorem spanOf_isSettled {id : NodeId} (h : id < s.nodes.size) :
    (spanOf id setup s).IsSettled := by
  change (Parse.bind (node id) _ setup s).IsSettled
  simp only [Parse.bind, node, Array.getElem?_eq_getElem h]
  trivial

theorem lt_of_done {step : Parse α} [Keeps step] {s s' : State} {value : α}
    {id : NodeId} (hi : id < s.nodes.size) (h : step setup s = .done value s') :
    id < s'.nodes.size := Nat.lt_of_lt_of_le hi (kept_of_done h).size_le

/-- The spans of two nodes are merged for the node that is made of them. -/
theorem mergeSpans_isSettled {a b : NodeId} (ha : a < s.nodes.size) (hb : b < s.nodes.size)
    (shape : Shape) :
    ((do
      let span ← spanOf a
      push shape (span.merge (← spanOf b)) : Parse NodeId) setup s).IsSettled := by
  refine bind_isSettled (spanOf_isSettled ha) fun span s₁ h => ?_
  obtain ⟨-, -, -, rfl⟩ := spanOf_done.1 h
  exact bind_isSettled (spanOf_isSettled hb) fun _ _ _ => trivial

include ht hs

omit [∀ rule, Keeps (run rule)] [Passing run] in
theorem unary_isSettled (hk : s.hasTokens) : (unary run setup s).IsSettled := by
  have hw := hs.passed (.advance s) (hs.ended.remaining_advance hk)
  refine bind_isSettled trivial fun token s₁ ha => ?_
  obtain ⟨rfl, rfl⟩ := advance_done.1 ha
  refine bind_isSettled (settles room (run (.expression .unary)) ht hw) fun operand s₂ ho => ?_
  exact bind_isSettled (spanOf_isSettled (free_adds ht ho)) fun _ _ _ => trivial

theorem yieldStatement_isSettled : (yieldStatement run setup s).IsSettled := by
  refine bind_isSettled (settles (room + 1) (expect .yieldWord) ht hs) fun token s₁ he => ?_
  have hw := hs.passed (kept_of_done he) (passes _ ht hs.ended he)
  refine bind_isSettled (settles room (typeExpression run) ht hw) fun operand s₂ ho => ?_
  have hw := hw.kept (kept_of_done ho)
  refine bind_isSettled trivial fun table s₃ hg => ?_
  obtain ⟨rfl, rfl⟩ := given_done.1 hg
  refine bind_isSettled trivial fun continues s₃ hc => ?_
  obtain ⟨rfl, rfl⟩ := look_done.1 hc
  split
  · have hb : Settles room (do
        let first ← pushFrom token.span.start (.yieldAttribute operand)
        let more ← moreAttributes run
        let body ← statementList run
        pushFrom token.span.start (.batchAttributes (first :: more) body)) := inferInstance
    exact hb.settles ht hw
  · have hl : (run (.continuation operand .lowest) setup s₃).IsSettled :=
      Serves.settles ht trivial (List.forall_mem_singleton.2 (free_adds ht ho)) hw
    exact bind_isSettled hl fun _ _ _ => trivial

omit [Passing run] in
theorem binary_isSettled {left : NodeId} (hl : left < s.nodes.size) (power : Power)
    (hk : s.hasTokens) : (binary run left power setup s).IsSettled := by
  have hw := hs.passed (.advance s) (hs.ended.remaining_advance hk)
  refine bind_isSettled trivial fun kind s₁ hk => ?_
  obtain ⟨rfl, rfl⟩ := look_done.1 hk
  cases BinaryOp.ofKind? s₁.kind with
  | none =>
    have hu : Settles (room + 1) (do refuse (← unexpected []) : Parse NodeId) := inferInstance
    exact hu.settles ht hs
  | some op =>
    refine bind_isSettled trivial fun token s₂ ha => ?_
    obtain ⟨rfl, rfl⟩ := advance_done.1 ha
    refine bind_isSettled (settles room (run (.expression power)) ht hw) fun right s₂ ho => ?_
    exact mergeSpans_isSettled (lt_of_done (lt_of_done hl ha) ho) (free_adds ht ho) _

theorem member_isSettled {left : NodeId} (hl : left < s.nodes.size) :
    (member left setup s).IsSettled := by
  refine bind_isSettled (settles (room + 1) (expect .dot) ht hs) fun token s₁ he => ?_
  have hw := hs.kept (kept_of_done he)
  refine bind_isSettled (settles (room + 1) name ht hw) fun name s₂ hn => ?_
  exact bind_isSettled (spanOf_isSettled (lt_of_done (lt_of_done hl he) hn)) fun _ _ _ => trivial

end

end

/-! ### Rules that call another at once -/

section
variable {room rank : Nat} {run : Rule → Parse NodeId} {setup : Setup} {s : State}
  (hs : s.Within (room + 1))
  (hr : ∀ {rule : Rule} {s : State}, rule.rank < rank → Fits s rule →
    (∀ left ∈ rule.left, left < s.nodes.size) → s.Within (room + 1) →
    (run rule setup s).IsSettled)
include hs hr

theorem free_isSettled (rule : Rule) [hf : rule.Free] (hk : rule.rank < rank) :
    (run rule setup s).IsSettled := hr hk (hf.fits s) (by simp [hf.left]) hs

theorem statement_isSettled (ht : setup.table = .standard) (hk : 0 < rank) :
    (statement run setup s).IsSettled := by
  refine bind_isSettled trivial fun table s₁ hg => ?_
  obtain ⟨rfl, rfl⟩ := given_done.1 hg
  refine bind_isSettled trivial fun kind s hl => ?_
  obtain ⟨rfl, rfl⟩ := look_done.1 hl
  rw [ht]
  cases hf : Table.standard.statement s.kind with
  | some form =>
    have h0 : (Rule.form form).rank = 0 := by
      have hf' : Table.statements s.kind = some form := hf
      unfold Table.statements at hf'
      split at hf' <;> cases hf' <;> rfl
    exact hr (h0.trans_lt hk) (fits_statement hf) (List.forall_mem_nil _) hs
  | none =>
    have hm : Settles (room + 1) (do refuse (← misplaced .statement) : Parse NodeId) :=
      inferInstance
    exact hm.settles ht hs

theorem operand_isSettled (ht : setup.table = .standard) (hk : 1 < rank) :
    (operand run setup s).IsSettled := by
  refine bind_isSettled trivial fun kind s₁ hl => ?_
  obtain ⟨rfl, rfl⟩ := look_done.1 hl
  refine bind_isSettled trivial fun table s hg => ?_
  obtain ⟨rfl, rfl⟩ := given_done.1 hg
  rw [ht]
  cases hf : Table.standard.operand s.kind with
  | some form =>
    have h0 : (Rule.form form).rank = 0 := by
      have hf' : Table.operands s.kind = some form := hf
      unfold Table.operands at hf'
      split at hf' <;> cases hf' <;> rfl
    exact hr (by omega) (fits_operand hf) (List.forall_mem_nil _) hs
  | none =>
    have hm : Settles (room + 1) (do refuse (← misplaced .expression) : Parse NodeId) :=
      inferInstance
    cases (Table.standard.statement s.kind).isSome with
    | true => exact free_isSettled hs hr (.form .statement) hk
    | false => exact hm.settles ht hs

theorem expression_isSettled [∀ rule, Keeps (run rule)] [Passing run] [Adds run]
    [Serves room run] (ht : setup.table = .standard) (power : Power) (hk : 1 < rank) :
    (expression run power setup s).IsSettled := by
  have hw := hs.deeper
  refine nested_isSettled ?_
  refine bind_isSettled (operand_isSettled hw hr ht hk) fun left s₁ ho => ?_
  have hR {rule : Rule} {s s' : State} {id : NodeId} (hf : Fits s rule)
      (h : run rule setup s = .done id s') :
      (∀ left ∈ rule.left, left < s.nodes.size) → id < s'.nodes.size :=
    fun hl => Adds.adds ht hf hl h
  have hi : left < s₁.nodes.size := by
    cases operand_done (R := fun rule s id s' =>
      (∀ left ∈ rule.left, left < s.nodes.size) → id < s'.nodes.size) hR ht ho with
    | form _ hr => exact hr (List.forall_mem_nil _)
    | statement _ _ hr => exact hr (List.forall_mem_nil _)
  exact Serves.settles ht trivial (List.forall_mem_singleton.2 hi)
    (hw.passed (kept_of_done ho) (passes (operand run) ht hw.ended ho))

theorem pattern_isSettled (ht : setup.table = .standard) (allowDefault : Bool) (hk : 1 < rank) :
    (pattern run allowDefault setup s).IsSettled := by
  refine nested_isSettled ?_
  refine bind_isSettled trivial fun table s₁ hg => ?_
  obtain ⟨rfl, rfl⟩ := given_done.1 hg
  refine bind_isSettled trivial fun kind s₁ hl => ?_
  obtain ⟨rfl, rfl⟩ := look_done.1 hl
  rw [ht]
  cases hf : Table.standard.pattern s.deeper.kind with
  | some form =>
    have h1 : (Rule.pattern form allowDefault).rank ≤ 1 := by
      have hf' : Table.patterns s.deeper.kind = some form := hf
      unfold Table.patterns at hf'
      split at hf' <;> cases hf' <;> decide +revert
    exact hr (by omega) (fits_pattern hf) (List.forall_mem_nil _) hs.deeper
  | none =>
    have hm : Settles (room + 1) (do refuse (← misplaced .pattern) : Parse NodeId) := inferInstance
    exact hm.settles ht hs.deeper

theorem call_isSettled [∀ rule, Keeps (run rule)] [Adds run]
    (ht : setup.table = .standard) {left : NodeId} (hl : left < s.nodes.size) (hk : 0 < rank) :
    (call run left setup s).IsSettled := by
  refine bind_isSettled (free_isSettled hs hr (.tuple "argument list") hk) fun id s₁ ha => ?_
  exact mergeSpans_isSettled (lt_of_done hl ha) (free_adds ht ha) _

theorem index_isSettled [∀ rule, Keeps (run rule)] [Adds run]
    (ht : setup.table = .standard) {left : NodeId} (hl : left < s.nodes.size) (hk : 0 < rank) :
    (index run left setup s).IsSettled := by
  refine bind_isSettled (free_isSettled hs hr (.form .array) hk) fun id s₁ ha => ?_
  exact mergeSpans_isSettled (lt_of_done hl ha) (free_adds ht ha) _

theorem literalPattern_isSettled [Adds run] (ht : setup.table = .standard) (hk : 0 < rank) :
    (literalPattern run setup s).IsSettled := by
  refine bind_isSettled (free_isSettled hs hr (.form .primary) hk) fun id s₁ ha => ?_
  exact bind_isSettled (spanOf_isSettled (free_adds ht ha)) fun _ _ _ => trivial

theorem namedPattern_isSettled (allowDefault : Bool) (hk : 0 < rank) :
    (namedPattern run allowDefault setup s).IsSettled := by
  refine bind_isSettled trivial fun kind s₁ hl => ?_
  obtain ⟨rfl, rfl⟩ := look_done.1 hl
  split
  · exact free_isSettled hs hr (.pattern .enum allowDefault) hk
  · exact free_isSettled hs hr (.pattern .identifier allowDefault) hk

theorem signature_isSettled [∀ rule, Keeps (run rule)] [Passing run] [Serves room run]
    (ht : setup.table = .standard) (hk : 0 < rank) : (signature run setup s).IsSettled := by
  refine bind_isSettled trivial fun start s₁ hl => ?_
  obtain ⟨rfl, rfl⟩ := look_done.1 hl
  exact passing_bind_isSettled ht hs (free_isSettled hs hr (.pattern .tuple true) hk)

theorem suffixTurn_isSettled (ht : setup.table = .standard) {left : NodeId}
    (hl : left < s.nodes.size) (power : Power) (hk : 1 < rank) :
    (suffixTurn run power left setup s).IsSettled := by
  refine bind_isSettled trivial fun table s₁ hg => ?_
  obtain ⟨rfl, rfl⟩ := given_done.1 hg
  refine bind_isSettled trivial fun kind s₁ hl' => ?_
  obtain ⟨rfl, rfl⟩ := look_done.1 hl'
  rw [ht]
  cases hf : Table.standard.suffix s₁.kind with
  | none => trivial
  | some entry =>
    obtain ⟨next, suffix⟩ := entry
    dsimp only
    split
    · exact bind_isSettled (hr hk hf (List.forall_mem_singleton.2 hl) hs) fun _ _ _ => trivial
    · trivial

omit hs in
theorem suffixes_isSettled [∀ rule, Keeps (run rule)] [Passing run] [Adds run]
    (ht : setup.table = .standard) {power : Power} (hk : 1 < rank) {turns : Nat} {s : State}
    {left : NodeId} (hs : s.Within (room + 1)) (hl : left < s.nodes.size)
    (hn : s.remaining < turns) :
    (iterate (suffixTurn run power) turns left setup s).IsSettled := by
  induction turns generalizing left s with
  | zero => exact absurd hn (Nat.not_lt_zero _)
  | succ turns ih =>
    refine bind_isSettled (suffixTurn_isSettled hs hr ht hl power hk) fun turn s' hd => ?_
    cases turn with
    | finish left => trivial
    | again left' =>
      have hp := suffixTurn_passes ht hs.ended hd
      exact ih (hs.kept (kept_of_done hd)) (suffixTurn_adds ht hl hd) (by omega)

theorem continuation_isSettled [∀ rule, Keeps (run rule)] [Passing run] [Adds run]
    (ht : setup.table = .standard) {left : NodeId} (hl : left < s.nodes.size) (power : Power)
    (hk : 1 < rank) : (continuation run left power setup s).IsSettled := by
  rw [continuation_eq]
  exact suffixes_isSettled hr ht hk hs hl (Nat.lt_succ_self _)

end

section
variable {room : Nat} {run : Rule → Parse NodeId} [∀ rule, Keeps (run rule)] [Passing run]
  [Adds run] [Serves room run]

theorem ruleBody_isSettled {setup : Setup} (ht : setup.table = .standard)
    {rule : Rule} {s : State} (hs : s.Within (room + 1)) (hf : Fits s rule)
    (hl : ∀ left ∈ rule.left, left < s.nodes.size)
    (hr : ∀ {called : Rule} {s : State}, called.rank < rule.rank → Fits s called →
      (∀ left ∈ called.left, left < s.nodes.size) → s.Within (room + 1) →
      (run called setup s).IsSettled) :
    (rule.body run setup s).IsSettled := by
  match rule, hf with
  | .form .statement, _ => exact statement_isSettled hs hr ht (by decide)
  | .form .importStatement, hf => exact settles (room + 1) importStatement ht hs
  | .form .doStatement, hf => exact doStatement_isSettled ht hs hf
  | .form .returnStatement, hf => exact returnStatement_isSettled ht hs hf
  | .form .yieldStatement, _ => exact yieldStatement_isSettled ht hs
  | .form .ifStatement, hf => exact ifStatement_isSettled ht hs hf
  | .form .eachStatement, hf => exact eachStatement_isSettled ht hs hf
  | .form .matchStatement, hf => exact matchStatement_isSettled ht hs hf
  | .form .letStatement, hf => exact letStatement_isSettled ht hs hf
  | .form .typeExpression, _ =>
    exact free_isSettled hs hr (.expression .compare) (by simp [Rule.rank])
  | .form .primary, _ => exact settles (room + 1) primary ht hs
  | .form .unary, hf => exact unary_isSettled ht hs (State.hasTokens_of_unary hf)
  | .form .grouping, _ => exact settles (room + 1) (grouping run) ht hs
  | .form .array, _ => exact settles (room + 1) (array run) ht hs
  | .form .block, _ => exact settles (room + 1) (block run) ht hs
  | .form .signature, _ => exact signature_isSettled hs hr ht (by decide)
  | .expression power, _ => exact expression_isSettled hs hr ht power (by simp [Rule.rank])
  | .continuation left power, _ =>
    exact continuation_isSettled hs hr ht (hl left (List.mem_singleton_self left)) power
      (by simp [Rule.rank])
  | .suffix .binary left power, hf =>
    exact binary_isSettled ht hs (hl left (List.mem_singleton_self left)) power
      (State.hasTokens_of_suffix hf)
  | .suffix .call left power, hf =>
    exact call_isSettled hs hr ht (hl left (List.mem_singleton_self left)) (by simp [Rule.rank])
  | .suffix .index left power, hf =>
    exact index_isSettled hs hr ht (hl left (List.mem_singleton_self left)) (by simp [Rule.rank])
  | .suffix .member left power, hf =>
    exact member_isSettled ht hs (hl left (List.mem_singleton_self left))
  | .tuple construct, _ => exact settles (room + 1) (tuple run construct) ht hs
  | .pattern .any allowDefault, _ =>
    exact pattern_isSettled hs hr ht allowDefault (by simp [Rule.rank])
  | .pattern .rest _, _ => exact settles (room + 1) (restPattern run) ht hs
  | .pattern .named allowDefault, _ =>
    exact namedPattern_isSettled hs hr allowDefault (by simp [Rule.rank])
  | .pattern .identifier allowDefault, _ =>
    exact settles (room + 1) (identifierPattern run allowDefault) ht hs
  | .pattern .tuple _, _ => exact settles (room + 1) (tuplePattern run) ht hs
  | .pattern .enum _, _ => exact settles (room + 1) (enumPattern run) ht hs
  | .pattern .literal _, _ => exact literalPattern_isSettled hs hr ht (by simp [Rule.rank])

end

/-! ## Every rule settles -/

def AddsRule : Meaning := fun rule s id s' =>
  (∀ left ∈ rule.left, left < s.nodes.size) → id < s'.nodes.size

theorem adds_of_suffixes {power : Power} {s s' : State} {left id : NodeId}
    (h : Suffixes AddsRule power s left id s') (hl : left < s.nodes.size) : id < s'.nodes.size := by
  induction h with
  | stop => exact hl
  | take _ _ hr _ ih => exact ih (hr (List.forall_mem_singleton.2 hl))

theorem adds_of_production {maxDepth : Nat} {rule : Rule} {s s' : State} {id : NodeId}
    (h : Production AddsRule maxDepth rule s id s') : AddsRule rule s id s' := by
  intro hl
  cases h with
  | statement _ hr | pattern _ _ hr | namedEnum _ hr | namedIdentifier _ hr | typeExpression hr =>
    exact hr (List.forall_mem_nil _)
  | letVariable _ hv =>
    cases hv
    simp [State.push]
  | expression _ ho hc =>
    refine hc (List.forall_mem_singleton.2 ?_)
    cases ho with
    | form _ hr => exact hr (List.forall_mem_nil _)
    | statement _ _ hr => exact hr (List.forall_mem_nil _)
  | continuation hs => exact adds_of_suffixes hs (hl _ (List.mem_singleton_self _))
  | _ => simp [State.push]

instance adds_runWith (fuel : Nat) : Adds (Rule.runWith fuel) where
  adds ht hf hl h := runWith_done ht adds_of_production hf h hl

theorem runWith_isSettled {setup : Setup} (ht : setup.table = .standard) {fuel : Nat} {rule : Rule}
    {s : State} (he : s.Ended) (hf : Fits s rule) (hl : ∀ left ∈ rule.left, left < s.nodes.size)
    (hc : 4 * s.remaining + rule.rank < fuel) :
    (Rule.runWith fuel rule setup s).IsSettled := by
  induction fuel generalizing setup rule s with
  | zero => exact absurd hc (Nat.not_lt_zero _)
  | succ fuel ih =>
    obtain ⟨room, hroom⟩ : ∃ room, s.remaining = room + 1 :=
      ⟨_, (Nat.succ_pred_eq_of_pos s.remaining_pos).symm⟩
    have : Serves room (Rule.runWith fuel) := by
      refine ⟨fun {called setup s} ht hf hl hs => ih ht hs.ended hf hl ?_⟩
      have hr := hs.room
      have hk := called.rank_le
      omega
    refine ruleBody_isSettled ht ⟨he, hroom.le⟩ hf hl fun {called s} hk hf hl hs => ?_
    refine ih ht hs.ended hf hl ?_
    have hr := hs.room
    omega

/-- A rule of the language yields a node or raises an error at the token it has come to. -/
theorem parse_isSettled {setup : Setup} (ht : setup.table = .standard) {rule : Rule} {s : State}
    (he : s.Ended) (hf : Fits s rule) (hl : ∀ left ∈ rule.left, left < s.nodes.size) :
    (rule.parse setup s).IsSettled := by
  have hk := rule.rank_le
  refine runWith_isSettled ht he hf hl ?_
  unfold Rule.fuel
  omega

theorem header_isSettled {setup : Setup} (ht : setup.table = .standard) {s : State}
    (he : s.Ended) : (header setup s).IsSettled := by
  have : Settles s.remaining header := by
    unfold header
    infer_instance
  exact settles _ header ht ⟨he, Nat.le_refl _⟩

end Parse
end Smaug
