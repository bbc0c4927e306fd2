import Smaug.Proofs.Parse.Layout
import Smaug.Proofs.Parse.Reached
import Smaug.Proofs.Tree.Power

/-! # How operators group

An operator takes what was read before it as its left operand, and it was taken because it binds no
more tightly than that; its right operand ends where an operator follows that binds no more tightly
than itself.  So what is read so far never has less power than the operator that follows, and no
operand less than its operator needs.
-/

namespace Smaug

namespace Parse

open Grammar

variable {s s₁ s' : State} {id : NodeId}

/-- The operator that follows, if one does, binds no more tightly than the node read so far. -/
def Settled (s : State) (id : NodeId) : Prop :=
  ∃ node, s.nodes[id]? = some node ∧
    ∀ next suffix, Table.suffixes s.kind = some (next, suffix) → next.rank ≤ node.shape.power.rank

/-- A node is no operator between two operands that binds as loosely as `power`, or more so. -/
def Above (s : State) (id : NodeId) (power : Power) : Prop :=
  HasPower s.nodes id (min (power.rank + 1) Power.unary.rank)

/-- The operator that follows, if one does, binds no more tightly than `power`. -/
def Stops (s : State) (power : Power) : Prop :=
  ∀ next suffix, Table.suffixes s.kind = some (next, suffix) → next.rank ≤ power.rank

theorem Above.mono {power power' : Power} (hp : power'.rank ≤ power.rank)
    (h : Above s id power) : Above s id power' := by
  obtain ⟨node, hn, hr⟩ := h
  refine ⟨node, hn, ?_⟩
  omega

theorem Above.of_primary {power : Power} (h : Above s id .primary) : Above s id power :=
  h.mono power.rank_le_primary

/-- What a rule counts on: that of the node to its left, if it takes one. -/
def Before : Rule → State → Prop
  | .continuation left power, s => Settled s left ∧ Above s left power
  | .suffix _ left next, s => HasPower s.nodes left next.rank
  | _, _ => True

def After (id : NodeId) (s : State) : Rule → Prop
  | .form .typeExpression | .tuple _ | .pattern _ _ => True
  | .form _ => Settled s id ∧ Above s id .primary
  | .expression power | .continuation _ power => Settled s id ∧ Above s id power ∧ Stops s power
  | .suffix _ _ next => Settled s id ∧ ∀ power, next.tighter power → Above s id power

def State.Ranked (s : State) : Prop := Smaug.Ranked s.nodes

def Groups : Meaning := fun rule s id s' =>
  s.Ranked → Before rule s → s'.Ranked ∧ After id s' rule

abbrev GroupsKept : Meaning := fun rule s id s' => Kept s s' ∧ Groups rule s id s'

/-! ## Keeping the arena ranked -/

theorem State.Ranked.advance (h : s.Ranked) : s.advance.Ranked := by
  rwa [State.Ranked, State.advance_nodes]

theorem State.Ranked.skip {kind : Token.Kind} (h : s.Ranked) : (s.skip kind).Ranked := by
  unfold State.skip
  split
  · exact h.advance
  · exact h

theorem before_of_left {rule : Rule} (h : rule.left = []) : Before rule s := by
  cases rule with
  | continuation | suffix => cases h
  | form | expression | tuple | pattern => trivial

theorem State.Ranked.rule {rule : Rule} (h : s.Ranked) (hr : GroupsKept rule s id s')
    (hl : rule.left = []) : s'.Ranked := (hr.2 h (before_of_left hl)).1

theorem State.Ranked.closed {shape : Shape} (span : Span) (ho : shape.operands = [])
    (h : s.Ranked) : (s.push ⟨shape, span⟩).Ranked := by
  apply Smaug.Ranked.push _ h
  simp [ho]

theorem State.Ranked.collected {finished : State → Prop} {turn : State → α → Bool → State → Prop}
    (ht : ∀ {s item more s'}, turn s item more s' → s.Ranked → s'.Ranked)
    {items : List α} (hs : Collected finished turn s items s') (h : s.Ranked) :
    s'.Ranked := by
  induction hs with
  | nil => exact h
  | last hi => exact ht hi h
  | cons hi _ ih => exact ih (ht hi h)

theorem State.Ranked.path {path : Path} (hp : PathRead s path s') (h : s.Ranked) :
    s'.Ranked := by
  obtain ⟨-, hs⟩ := hp
  refine State.Ranked.collected ?_ hs h.advance
  rintro s item more s' ⟨-, -⟩ h
  exact h.advance.advance

theorem State.Ranked.external {external : Option External} (he : ExternalRead s external s')
    (h : s.Ranked) : s'.Ranked := by
  cases he with
  | none => exact h
  | some _ hm =>
    cases hm with
    | none => exact h.advance
    | some => exact h.advance.advance.advance.advance

theorem State.Ranked.variants {finished : State → Prop} {ids : List NodeId}
    (hs : Collected finished (Variant GroupsKept) s ids s') (h : s.Ranked) : s'.Ranked := by
  refine State.Ranked.collected ?_ hs h
  rintro s item more s' ⟨-, hr⟩ h
  exact (h.rule hr rfl).skip

theorem State.Ranked.elements {close : Token.Kind} {rule : Rule} {ids : List NodeId}
    (hl : rule.left = []) (hs : Elements GroupsKept close rule s ids s')
    (h : s.Ranked) : s'.Ranked := by
  obtain ⟨hs, -⟩ := hs
  refine State.Ranked.collected ?_ hs h
  rintro s item more s' ⟨-, hr⟩ h
  exact (h.rule hr hl).skip

theorem State.Ranked.statements {ids : List NodeId} (hs : BracedStatements GroupsKept s ids s')
    (h : s.Ranked) : s'.Ranked := by
  refine State.Ranked.collected ?_ hs h
  rintro s item more s' ⟨-, hr⟩ h
  exact h.rule hr rfl

theorem State.Ranked.optionally {called : State → Prop} {rule : Rule} {i : Option NodeId}
    (hl : rule.left = []) (ho : Optionally GroupsKept called rule s i s')
    (h : s.Ranked) : s'.Ranked := by
  cases ho with
  | none => exact h
  | some _ hr => exact h.advance.rule hr hl

theorem State.Ranked.letVariable {start : Nat} (hv : LetVariable GroupsKept start s id s')
    (h : s.Ranked) : s'.Ranked := by
  obtain ⟨hp, -, hv⟩ := hv
  exact ((h.rule hp rfl).advance.rule hv rfl).closed _ rfl

theorem State.Ranked.statementOrBlock (hs : StatementOrBlock GroupsKept s id s')
    (h : s.Ranked) : s'.Ranked := by
  cases hs with
  | block _ hr => exact h.rule hr rfl
  | statement _ hr => exact h.rule hr rfl

theorem State.Ranked.body {body : Body} (hb : BodyRead GroupsKept s body s') (h : s.Ranked) :
    s'.Ranked := by
  cases hb with
  | value _ hr => exact h.advance.rule hr rfl
  | block _ hr => exact h.rule hr rfl

/-- A type is an expression that ends before comparisons. -/
theorem State.Ranked.typeRead (h : s.Ranked) (hr : GroupsKept (.expression .compare) s id s') :
    s'.Ranked ∧ HasPower s'.nodes id (Power.compare.rank + 1) := by
  obtain ⟨h', -, ha, -⟩ := hr.2 h trivial
  exact ⟨h', ha⟩

theorem State.Ranked.optionalType {called : State → Prop} {i : Option NodeId}
    (ho : Optionally GroupsKept called (.expression .compare) s i s') (h : s.Ranked) :
    s'.Ranked ∧ ∀ type ∈ i.toList, HasPower s'.nodes type (Power.compare.rank + 1) := by
  cases ho with
  | none => exact ⟨h, by simp⟩
  | some _ hr =>
    obtain ⟨h', hp⟩ := h.advance.typeRead hr
    exact ⟨h', by simpa using hp⟩

/-- A construct that takes no operands but types. -/
theorem State.Ranked.typed {shape : Shape} (span : Span)
    (ho : shape.operands = shape.types.map (Power.compare.rank + 1, ·))
    (ht : ∀ type ∈ shape.types, HasPower s.nodes type (Power.compare.rank + 1)) (h : s.Ranked) :
    (s.push ⟨shape, span⟩).Ranked := by
  apply Smaug.Ranked.push _ h
  intro rank operand hm
  rw [ho] at hm
  obtain ⟨_, hmem, heq⟩ := List.mem_map.1 hm
  cases heq
  exact ht _ hmem

theorem State.Ranked.yieldAttribute {type : NodeId} (span : Span)
    (hr : GroupsKept (.expression .compare) s type s') (h : s.Ranked) :
    (s'.push ⟨.yieldAttribute type, span⟩).Ranked := by
  obtain ⟨h', hp⟩ := h.typeRead hr
  exact h'.typed _ rfl (by simpa [Shape.types] using hp)

theorem State.Ranked.attributeList {ids : List NodeId} (hs : AttributeList GroupsKept s ids s')
    (h : s.Ranked) : s'.Ranked := by
  obtain ⟨-, hs⟩ := hs
  refine State.Ranked.collected ?_ hs h
  rintro s item more s' ⟨-, ht, rfl⟩ h
  exact (h.advance.yieldAttribute _ ht).skip

theorem State.Ranked.moreAttributes {ids : List NodeId} (hm : MoreAttributes GroupsKept s ids s')
    (h : s.Ranked) : s'.Ranked := by
  cases hm with
  | none => exact h
  | comma => exact h.advance
  | list _ hs => exact h.advance.attributeList hs

theorem State.Ranked.signatureAttributes {ids : List NodeId}
    (ha : SignatureAttributes GroupsKept s ids s') (h : s.Ranked) : s'.Ranked := by
  cases ha with
  | none => exact h
  | list hs => exact h.attributeList hs

theorem State.Ranked.statementList (hl : StatementList GroupsKept s id s') (h : s.Ranked) :
    s'.Ranked := by
  cases hl with
  | colon _ hs => exact (h.advance.statements hs).closed _ rfl
  | braced _ hs _ => exact (h.advance.statements hs).advance.closed _ rfl

theorem State.Ranked.casePattern {pattern : CasePattern}
    (hp : CasePatternRead GroupsKept s pattern s') (h : s.Ranked) : s'.Ranked := by
  cases hp with
  | default => exact h.advance
  | pattern _ hr => exact h.rule hr rfl

theorem State.Ranked.matchCase {more : Bool} (hc : MatchCase GroupsKept s id more s')
    (h : s.Ranked) : s'.Ranked := by
  obtain ⟨-, hp, hb⟩ := hc
  exact ((h.advance.casePattern hp).body hb).closed _ rfl

/-! ## What is known of a node -/

theorem settled_push {shape : Shape} {span : Span}
    (h : ∀ next suffix, Table.suffixes s.kind = some (next, suffix) →
      next.rank ≤ shape.power.rank) : Settled (s.push ⟨shape, span⟩) s.nodes.size :=
  ⟨⟨shape, span⟩, Array.getElem?_push_size, h⟩

theorem above_push {shape : Shape} {span : Span} {power : Power}
    (h : min (power.rank + 1) Power.unary.rank ≤ shape.power.rank) :
    Above (s.push ⟨shape, span⟩) s.nodes.size power :=
  ⟨⟨shape, span⟩, Array.getElem?_push_size, h⟩

/-- Nothing binds more tightly than a construct that is closed by its own signs. -/
theorem closed_push {shape : Shape} (span : Span) (hp : shape.power = .primary) :
    Settled (s.push ⟨shape, span⟩) s.nodes.size ∧
      Above (s.push ⟨shape, span⟩) s.nodes.size .primary := by
  refine ⟨settled_push fun next _ _ => ?_, above_push ?_⟩
  · rw [hp]
    exact next.rank_le_primary
  · rw [hp]
    decide

theorem after_of_statement {form : Form} (h : Table.statements s.kind = some form)
    (ha : After id s' (.form form)) : Settled s' id ∧ Above s' id .primary := by
  unfold Table.statements at h
  split at h <;> cases h <;> exact ha

theorem after_of_operand {form : Form} (h : Table.operands s.kind = some form)
    (ha : After id s' (.form form)) : Settled s' id ∧ Above s' id .primary := by
  unfold Table.operands at h
  split at h <;> cases h <;> exact ha

theorem operand_groups (ho : Operand GroupsKept s id s') (h : s.Ranked) :
    s'.Ranked ∧ Settled s' id ∧ Above s' id .primary := by
  cases ho with
  | form hf hr =>
    obtain ⟨hs, ha⟩ := hr.2 h (by cases ‹Form› <;> trivial)
    exact ⟨hs, after_of_operand hf ha⟩
  | statement _ _ hr => exact hr.2 h trivial

theorem suffixes_groups {power : Power} {left : NodeId}
    (hx : Suffixes GroupsKept power s left id s') (h : s.Ranked) (hs : Settled s left)
    (ha : Above s left power) :
    s'.Ranked ∧ Settled s' id ∧ Above s' id power ∧ Stops s' power := by
  induction hx with
  | stop hstop =>
    refine ⟨h, hs, ha, fun next suffix hn => ?_⟩
    simpa [Power.tighter] using hstop next suffix hn
  | take hn ht hr _ ih =>
    obtain ⟨node, hl, hle⟩ := hs
    obtain ⟨h, hs, ha⟩ := hr.2 h ⟨node, hl, hle _ _ hn⟩
    exact ih h hs (ha _ ht)

theorem suffixes_kind (op : BinaryOp) : Table.suffixes op.kind = some (op.tier, .binary) := by
  cases op <;> rfl

theorem power_of_call {kind : Token.Kind} {power : Power}
    (h : Table.suffixes kind = some (power, .call)) : power = .suffix := by
  unfold Table.suffixes at h
  split at h <;> cases h
  rfl

theorem power_of_index {kind : Token.Kind} {power : Power}
    (h : Table.suffixes kind = some (power, .index)) : power = .suffix := by
  unfold Table.suffixes at h
  split at h <;> cases h
  rfl

theorem power_of_member {kind : Token.Kind} {power : Power}
    (h : Table.suffixes kind = some (power, .member)) : power = .member := by
  unfold Table.suffixes at h
  split at h <;> cases h
  rfl

theorem HasPower.grow {left : NodeId} {rank : Nat} (hg : Grown s s')
    (h : HasPower s.nodes left rank) : HasPower s'.nodes left rank := by
  obtain ⟨node, hn, hr⟩ := h
  exact ⟨node, hg.getElem? hn, hr⟩

theorem binary_groups {op : BinaryOp} {left right : NodeId} (span : Span)
    (hl : HasPower s.nodes left op.tier.rank)
    (hr : GroupsKept (.expression op.tier) s.advance right s') (h : s.Ranked) :
    (s'.push ⟨.binary op left right, span⟩).Ranked ∧
      After s'.nodes.size (s'.push ⟨.binary op left right, span⟩)
        (.suffix .binary left op.tier) := by
  obtain ⟨hk, hg⟩ := hr
  obtain ⟨h', -, ha, hstop⟩ := hg h.advance trivial
  have htier := op.tier_lt_unary
  refine ⟨Smaug.Ranked.push _ h' ?_, settled_push hstop, fun power hp => above_push ?_⟩
  · intro rank operand ho
    simp only [Shape.operands, List.mem_cons, Prod.mk.injEq, List.not_mem_nil, or_false] at ho
    rcases ho with ⟨rfl, rfl⟩ | ⟨rfl, rfl⟩
    · exact HasPower.grow ((Kept.advance s).toGrown.trans hk.toGrown) hl
    · obtain ⟨node, hn, hle⟩ := ha
      refine ⟨node, hn, ?_⟩
      omega
  · simp only [Power.tighter, decide_eq_true_eq] at hp
    simp only [Shape.power]
    omega

theorem unary_groups {op : UnaryOp} {operand : NodeId} (span : Span)
    (hr : GroupsKept (.expression .unary) s.advance operand s') (h : s.Ranked) :
    (s'.push ⟨.unary op operand, span⟩).Ranked ∧
      After s'.nodes.size (s'.push ⟨.unary op operand, span⟩) (.form .unary) := by
  obtain ⟨h', -, ha, hstop⟩ := hr.2 h.advance trivial
  refine ⟨Smaug.Ranked.push _ h' ?_, settled_push hstop, above_push ?_⟩
  · intro rank operand ho
    simp only [Shape.operands, List.mem_singleton, Prod.mk.injEq] at ho
    obtain ⟨rfl, rfl⟩ := ho
    obtain ⟨node, hn, hle⟩ := ha
    exact ⟨node, hn, Nat.le_trans (by decide) hle⟩
  · exact Nat.min_le_right _ _

/-- A call, an access and a member have one operand that they do not close in. -/
theorem postfix_ranked {shape : Shape} {left : NodeId} {power : Power} (span : Span)
    (ho : shape.operands = [(power.rank, left)]) (hg : Grown s s')
    (hl : HasPower s.nodes left power.rank) (h : s'.Ranked) : (s'.push ⟨shape, span⟩).Ranked := by
  refine Smaug.Ranked.push _ h ?_
  intro rank operand hm
  rw [ho, List.mem_singleton] at hm
  cases hm
  exact HasPower.grow hg hl

theorem after_suffix {shape : Shape} {suffix : Suffix} {left : NodeId} {next : Power} (span : Span)
    (hp : shape.power = .primary) :
    After s.nodes.size (s.push ⟨shape, span⟩) (.suffix suffix left next) := by
  obtain ⟨hs, ha⟩ := closed_push (s := s) span hp
  exact ⟨hs, fun power _ => ha.of_primary⟩

theorem groups_of_statement {maxDepth : Nat} {rule : Rule} (hf : rule.family = .statement)
    (h : Production GroupsKept maxDepth rule s id s') : Groups rule s id s' := by
  intro hs hbefore
  cases h with
  | statement hf hr =>
    obtain ⟨h, ha⟩ := hr.2 hs (by cases ‹Form› <;> trivial)
    exact ⟨h, after_of_statement hf ha⟩
  | importStatement hk hp => exact ⟨(hs.advance.path hp).closed _ rfl, closed_push _ rfl⟩
  | doStatement hk _ hv => exact ⟨(hs.advance.rule hv rfl).closed _ rfl, closed_push _ rfl⟩
  | retryCase hk hc hv =>
    exact ⟨(hs.advance.advance.rule hv rfl).closed _ rfl, closed_push _ rfl⟩
  | returnStatement hk hv =>
    exact ⟨(hs.advance.rule hv rfl).closed _ rfl, closed_push _ rfl⟩
  | yieldStatement hk ht _ hv =>
    obtain ⟨h, ho, ha, -⟩ := ht.2 hs.advance trivial
    obtain ⟨h, -⟩ := hv.2 h ⟨ho, ha.mono (by decide)⟩
    exact ⟨h.closed _ rfl, closed_push _ rfl⟩
  | batchAttributes hk ht _ hs₂ hm hl =>
    subst hs₂
    have h := (hs.advance.yieldAttribute _ ht).moreAttributes hm
    exact ⟨(h.statementList hl).closed _ rfl, closed_push _ rfl⟩
  | ifStatement hk _ hc ht he =>
    have hc := (hs.advance.rule hc rfl).rule ht rfl
    exact ⟨(hc.optionally rfl he).closed _ rfl, closed_push _ rfl⟩
  | ifLet hk hl hb ht he =>
    have hb := (hs.advance.advance.letVariable hb).statementOrBlock ht
    exact ⟨(hb.optionally rfl he).closed _ rfl, closed_push _ rfl⟩
  | eachRange hk ho hp hi hr hc hb =>
    have hp := (hs.advance.advance.rule hp rfl).advance
    exact ⟨((hp.rule hr rfl).advance.rule hb rfl).closed _ rfl, closed_push _ rfl⟩
  | each hk hb ht =>
    exact ⟨((hs.advance.letVariable hb).statementOrBlock ht).closed _ rfl, closed_push _ rfl⟩
  | matchStatement hk ht ho hs₂ hc =>
    have ht := (hs.advance.rule ht rfl).advance.collected .matchCase hs₂
    exact ⟨ht.advance.closed _ rfl, closed_push _ rfl⟩
  | letVariable hk hv =>
    refine ⟨hs.advance.letVariable hv, ?_⟩
    cases hv
    exact closed_push _ rfl
  | letFunction hk hn hs₂ hb =>
    exact ⟨((hs.advance.advance.rule hs₂ rfl).body hb).closed _ rfl, closed_push _ rfl⟩
  | letStruct hk hs₂ hp =>
    exact ⟨(hs.advance.advance.rule hp rfl).closed _ rfl, closed_push _ rfl⟩
  | letEnum hk he hn hx ho hs₂ hc =>
    have hx := (hs.advance.advance.advance.external hx).advance.variants hs₂
    exact ⟨hx.advance.closed _ rfl, closed_push _ rfl⟩
  | _ => cases hf

theorem groups_of_expression {maxDepth : Nat} {rule : Rule} (hf : rule.family = .expression)
    (h : Production GroupsKept maxDepth rule s id s') : Groups rule s id s' := by
  intro hs hbefore
  cases h with
  | typeExpression ht => exact ⟨hs.rule ht rfl, trivial⟩
  | integer | string | identifier => exact ⟨hs.advance.closed _ rfl, closed_push _ rfl⟩
  | unary hk hr hn => exact unary_groups _ hr hs
  | emptyTuple => exact ⟨hs.advance.advance.closed _ rfl, closed_push _ rfl⟩
  | paren ho hr hc =>
    exact ⟨(hs.advance.rule hr rfl).advance.closed _ rfl, closed_push _ rfl⟩
  | longTuple ho hr hc hs₂ =>
    have hr := (hs.advance.rule hr rfl).advance.elements rfl hs₂
    exact ⟨hr.advance.closed _ rfl, closed_push _ rfl⟩
  | array ho hs₂ =>
    exact ⟨(hs.advance.elements rfl hs₂).advance.closed _ rfl, closed_push _ rfl⟩
  | block ho hs₂ hc =>
    exact ⟨(hs.advance.statements hs₂).advance.closed _ rfl, closed_push _ rfl⟩
  | expression hd ho hc =>
    obtain ⟨h, hl, ha⟩ := operand_groups ho hs
    exact hc.2 h ⟨hl, ha.of_primary⟩
  | continuation hx => exact suffixes_groups hx hs hbefore.1 hbefore.2
  | binary hk ho hr hl hn =>
    rw [← ho, suffixes_kind] at hk
    cases hk
    exact binary_groups _ hbefore hr hs
  | call hk hr hl hn =>
    cases power_of_call hk
    refine ⟨postfix_ranked _ rfl hr.1.toGrown hbefore (hs.rule hr rfl), ?_⟩
    exact after_suffix _ rfl
  | index hk hr hl hn =>
    cases power_of_index hk
    refine ⟨postfix_ranked _ rfl hr.1.toGrown hbefore (hs.rule hr rfl), ?_⟩
    exact after_suffix _ rfl
  | member hk hd hn hl =>
    cases power_of_member hk
    have hg := ((Kept.advance s).trans (Kept.advance _)).toGrown
    exact ⟨postfix_ranked _ rfl hg hbefore hs.advance.advance, after_suffix _ rfl⟩
  | tuple ho hs₂ =>
    exact ⟨(hs.advance.elements rfl hs₂).advance.closed _ rfl, trivial⟩
  | _ => cases hf

theorem groups_of_pattern {maxDepth : Nat} {rule : Rule} (hf : rule.family = .pattern)
    (h : Production GroupsKept maxDepth rule s id s') : Groups rule s id s' := by
  intro hs hbefore
  cases h with
  | signature ha ht hs₂ =>
    obtain ⟨h, htype⟩ := (hs.rule ha rfl).optionalType ht
    refine ⟨(h.signatureAttributes hs₂).typed _ rfl fun type hm => ?_, closed_push _ rfl⟩
    have hattributes := Rest.signatureAttributes hs₂
    exact HasPower.grow (hattributes.grown fun hr => hr.1.toGrown) (htype type hm)
  | pattern hd hf hr =>
    have h := State.Ranked.rule (s := s.deeper) hs hr rfl
    exact ⟨h, trivial⟩
  | restPattern hk hr => exact ⟨(hs.advance.rule hr rfl).closed _ rfl, trivial⟩
  | namedEnum hp hr => exact ⟨hs.rule hr rfl, trivial⟩
  | namedIdentifier hp hr => exact ⟨hs.rule hr rfl, trivial⟩
  | identifierPattern hn ht hd =>
    obtain ⟨h, htype⟩ := hs.advance.optionalType ht
    refine ⟨(h.optionally rfl hd).typed _ rfl fun type hm => ?_, trivial⟩
    have hdefault := Rest.optionally (fun h => State.hasTokens_of_kind h.2 (by decide)) rfl
      (fun _ => rfl) hd
    exact HasPower.grow (hdefault.grown fun hr => hr.1.toGrown) (htype type hm)
  | tuplePattern ho hs₂ =>
    exact ⟨(hs.advance.elements rfl hs₂).advance.closed _ rfl, trivial⟩
  | enumPattern hn hr => exact ⟨(hs.advance.rule hr rfl).closed _ rfl, trivial⟩
  | literalPattern hk hr hn =>
    have h := hs.rule hr rfl
    exact ⟨h.closed _ rfl, trivial⟩
  | _ => cases hf

theorem groups_of_production {maxDepth : Nat} {rule : Rule}
    (h : Production GroupsKept maxDepth rule s id s') : Groups rule s id s' := by
  cases hf : rule.family with
  | statement => exact groups_of_statement hf h
  | expression => exact groups_of_expression hf h
  | pattern => exact groups_of_pattern hf h

/-! ## The tree of a module -/

theorem Reached.ranked {setup : Setup} (ht : setup.table = .standard) {tokens : List Token}
    {header : Option NodeId} {ids : List NodeId} (h : Reached setup tokens s header ids) :
    s.Ranked := by
  induction h with
  | start =>
    rw [State.Ranked, State.start_nodes]
    exact .empty
  | header h _ =>
    have hs : (State.start tokens).Ranked := by
      rw [State.Ranked, State.start_nodes]
      exact .empty
    cases h with
    | none => exact hs
    | some _ hp => exact (hs.advance.path hp).closed _ rfl
  | statement _ _ h ih =>
    have hg : Groups (.form .statement) _ _ _ := parse_done_kept ht groups_of_production trivial h
    exact (hg ih trivial).1
  | skip _ _ hn ih => rwa [State.Ranked, hn]

end Parse

theorem Parsed.ofTokens_ranked (tokens : Tokens) (file : String) (options : Options) :
    Ranked (Parsed.ofTokens tokens file options).tree.nodes := by
  rcases Parse.ofTokens_reached tokens file options with h | ⟨s, header, ids, hr, h⟩
  · rw [h]
    exact .empty
  · rw [h]
    exact hr.ranked rfl

/-- Every tree groups its operators by their tiers, also those that take the operand of a `yield`
further and those after a statement that stands as an operand. -/
theorem Parsed.ofTokens_grouped (tokens : Tokens) (file : String) (options : Options) :
    (Parsed.ofTokens tokens file options).tree.Grouped :=
  (ofTokens_ranked tokens file options).grouped

end Smaug
