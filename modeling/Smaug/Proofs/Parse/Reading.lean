import Mathlib.Logic.Relation
import Smaug.Proofs.Parse.Success
import Smaug.Proofs.Tree.Slots

/-! # Reading as shifting and reducing

Whatever a rule does, it comes down to two moves on a stack of slots: it passes a token and puts its
signs on the stack, or it puts a new node in the place of the slots the node is written in.  A rule
that yields a node leaves that node on the stack where it found what it was called with.
-/

namespace Smaug

namespace Parse

open Grammar Relation

/-- One move of a parse with a stack of slots. -/
inductive Move : List Slot × State → List Slot × State → Prop
  | shift (h : s.hasTokens) : Move (stack, s) (stack ++ s.current.signs.map .sign, s.advance)
  | reduce (shape : Shape) (span : Span) :
      Move (stack ++ shape.slots, s) (stack ++ [.node s.nodes.size], s.push ⟨shape, span⟩)
  /-- A variable without its `let`. -/
  | reduceBare (pattern value : NodeId) (span : Span) :
      Move (stack ++ [.node pattern, .mark .assignment, .node value], s)
        (stack ++ [.bare s.nodes.size], s.push ⟨.letVariable pattern value, span⟩)
  /-- A change of the level of nesting. -/
  | level (depth : Nat) : Move (stack, s) (stack, { s with depth })

/-- Moves lead from `s` to `s'` and put `after` in the place of `before` on top of any stack. -/
def Reads (before : List Slot) (s : State) (after : List Slot) (s' : State) : Prop :=
  ∀ stack, ReflTransGen Move (stack ++ before, s) (stack ++ after, s')

namespace Reads

variable {a b c : List Slot} {s s₁ s' : State}

theorem refl : Reads a s a s := fun _ => .refl

theorem trans (h : Reads a s b s₁) (h' : Reads b s₁ c s') : Reads a s c s' :=
  fun stack => (h stack).trans (h' stack)

theorem frame (h : Reads a s b s') : Reads (c ++ a) s (c ++ b) s' := by
  intro stack
  rw [← List.append_assoc, ← List.append_assoc]
  exact h (stack ++ c)

/-- Reading goes on behind what has been read. -/
theorem next (h : Reads a s b s₁) (h' : Reads [] s₁ c s') : Reads a s (b ++ c) s' :=
  h.trans (by simpa using h'.frame (c := b))

theorem reduce {span : Span} (shape : Shape) (h : Reads a s shape.slots s') :
    Reads a s [.node s'.nodes.size] (s'.push ⟨shape, span⟩) :=
  fun stack => (h stack).tail (.reduce shape span)

theorem level (h : Reads a s.deeper b s') : Reads a s b s'.leave := by
  intro stack
  have hin : ReflTransGen Move (stack ++ a, s) (stack ++ a, s.deeper) :=
    .single (.level (s.depth + 1))
  exact (hin.trans (h stack)).tail (.level (s'.depth - 1))

/-! ## Tokens -/

theorem shift (h : s.kind ≠ .eof) : Reads [] s (s.current.signs.map .sign) s.advance := by
  intro stack
  rw [List.append_nil]
  exact .single (.shift (by simpa [State.hasTokens] using h))

theorem mark {kind : Token.Kind} (h : s.kind = kind) (hk : kind.isMark) :
    Reads [] s [.mark kind] s.advance := by
  have hs : s.current.signs.map Slot.sign = [.mark kind] := by
    rw [Token.signs_of_isMark h hk]
    rfl
  rw [← hs]
  apply shift
  rintro he
  rw [← h, he] at hk
  cases hk

theorem name (h : s.current.isName) : Reads [] s [s.name.slot] s.advance := by
  simp only [Token.isName, Bool.or_eq_true, beq_iff_eq] at h
  have hs : s.current.signs.map Slot.sign = [s.name.slot] := by
    rcases h with h | h <;> simp [Token.signs, State.name, Name.slot, h]
  rw [← hs]
  apply shift
  rcases h with h | h <;> simp [State.kind, h]

theorem word {text : String} (h : s.current.isWord text) :
    Reads [] s [.word text] s.advance := by
  simp only [Token.isWord, Bool.and_eq_true, beq_iff_eq] at h
  have hs : s.current.signs.map Slot.sign = [.word text] := by simp [Token.signs, h]
  rw [← hs]
  exact shift (by simp [State.kind, h.1])

theorem string (h : s.kind = .string) :
    Reads [] s [.sign (.string s.current.value)] s.advance := by
  have hs : s.current.signs = [.string s.current.value] := by
    simp [Token.signs, show s.current.kind = .string from h]
  simpa [hs] using shift (s := s) (by simp [h])

theorem integer {value : Nat} (h : s.kind = .integer)
    (hv : Text.integer? s.current.value = some value) :
    Reads [] s [.sign (.integer value)] s.advance := by
  have hs : s.current.signs = [.integer value] := by
    simp [Token.signs, show s.current.kind = .integer from h, hv]
  simpa [hs] using shift (s := s) (by simp [h])

theorem comma (h : s.kind = .comma) : Reads [] s [] s.advance := by
  have hs : s.current.signs = [] := by
    simp [Token.signs, show s.current.kind = .comma from h]
  simpa [hs] using shift (s := s) (by simp [h])

theorem skip_comma : Reads [] s [] (s.skip .comma) := by
  unfold State.skip
  split
  · rename_i h
    exact comma h
  · exact refl

/-! ## Lists -/

theorem collected {finished : State → Prop} {turn : State → α → Bool → State → Prop}
    {f : α → List Slot} (ht : ∀ {s item more s'}, turn s item more s' → Reads [] s (f item) s')
    {items : List α} (h : Collected finished turn s items s') :
    Reads [] s (items.flatMap f) s' := by
  induction h with
  | nil => exact refl
  | last h => simpa using ht h
  | cons h _ ih =>
    rw [List.flatMap_cons]
    exact (ht h).next ih

theorem collected_nodes {finished : State → Prop} {turn : State → NodeId → Bool → State → Prop}
    (ht : ∀ {s item more s'}, turn s item more s' → Reads [] s [.node item] s')
    {items : List NodeId} (h : Collected finished turn s items s') :
    Reads [] s (items.map .node) s' := by
  rw [List.map_eq_flatMap]
  exact collected (f := fun item => [.node item]) ht h

end Reads

/-- A rule puts its node on the stack, in the place of the one to its left. -/
def ReadsRule : Meaning := fun rule s id s' => Reads (rule.left.map .node) s [.node id] s'

namespace Reads

variable {s s' : State} {id : NodeId}

theorem dotted {names : List Name} (h : Collected (·.kind ≠ .dot) DottedName s names s') :
    Reads [] s (dottedSlots names) s' := by
  apply collected ?_ h
  rintro s item more s' ⟨hd, hn⟩
  exact (mark hd rfl).next (name hn)

theorem path {path : Path} (h : PathRead s path s') : Reads [] s path.slots s' := by
  obtain ⟨hn, hs⟩ := h
  exact (name hn).next (dotted hs)

theorem external {external : Option External} (h : ExternalRead s external s') :
    Reads [] s (external.toList.flatMap External.slots) s' := by
  cases h with
  | none => exact refl
  | some he hm =>
    have h := mark he rfl
    cases hm with
    | none => exact h
    | some ho hs hc => exact ((h.next (mark ho rfl)).next (string hs)).next (mark hc rfl)

theorem optional {called : State → Prop} {rule : Rule} {sign : Sign} {i : Option NodeId}
    (hl : rule.left = []) (hs : ∀ {s}, called s → Reads [] s [.sign sign] s.advance)
    (h : Optionally ReadsRule called rule s i s') :
    Reads [] s (optionalSlots (.sign sign) i) s' := by
  cases h with
  | none => exact refl
  | some hc hr =>
    rw [ReadsRule, hl] at hr
    exact (hs hc).next hr

theorem elements {close : Token.Kind} {rule : Rule} {ids : List NodeId} (hl : rule.left = [])
    (h : Elements ReadsRule close rule s ids s') : Reads [] s (ids.map .node) s' := by
  obtain ⟨hs, -⟩ := h
  apply collected_nodes ?_ hs
  rintro s item more s' ⟨-, hr⟩
  rw [ReadsRule, hl] at hr
  exact hr.next skip_comma

theorem statements {ids : List NodeId} (h : BracedStatements ReadsRule s ids s') :
    Reads [] s (ids.map .node) s' := by
  apply collected_nodes ?_ h
  rintro s item more s' ⟨-, hr⟩
  exact hr

theorem letVariable {start : Nat} (h : LetVariable ReadsRule start s id s') :
    ∃ pattern value s₁ span, Reads [] s [.node pattern, .mark .assignment, .node value] s₁ ∧
      id = s₁.nodes.size ∧ s' = s₁.push ⟨.letVariable pattern value, span⟩ := by
  obtain ⟨hp, he, hv⟩ := h
  exact ⟨_, _, _, _, (hp.next (mark he rfl)).next hv, rfl, rfl⟩

theorem variableAfterLet {start : Nat} (h : LetVariable ReadsRule start s id s') :
    Reads [.mark .letWord] s [.node id] s' := by
  obtain ⟨pattern, value, s₁, span, hr, rfl, rfl⟩ := letVariable h
  exact reduce (.letVariable pattern value) (hr.frame (c := [.mark .letWord]))

theorem bare {start : Nat} (h : LetVariable ReadsRule start s id s') :
    Reads [] s [.bare id] s' := by
  obtain ⟨pattern, value, s₁, span, hr, rfl, rfl⟩ := letVariable h
  exact fun stack => (hr stack).tail (.reduceBare pattern value span)

theorem statementOrBlock (h : StatementOrBlock ReadsRule s id s') :
    Reads [] s [.node id] s' := by
  cases h with
  | block _ hr => exact hr
  | statement _ hr => exact hr

theorem body {body : Body} (h : BodyRead ReadsRule s body s') : Reads [] s body.slots s' := by
  cases h with
  | value he hr => exact (mark he rfl).next hr
  | block _ hr => exact hr

theorem attributeList {ids : List NodeId} (h : AttributeList ReadsRule s ids s') :
    Reads [] s (ids.map .node) s' := by
  obtain ⟨-, hs⟩ := h
  apply collected_nodes ?_ hs
  rintro s item more s' ⟨hy, ht, rfl⟩
  exact (reduce (.yieldAttribute _) ((mark hy rfl).next ht)).next skip_comma

theorem moreAttributes {ids : List NodeId} (h : MoreAttributes ReadsRule s ids s') :
    Reads [] s (ids.map .node) s' := by
  cases h with
  | none => exact refl
  | comma hc => exact comma hc
  | list hc hs => exact (comma hc).next (attributeList hs)

theorem signatureAttributes {ids : List NodeId} (h : SignatureAttributes ReadsRule s ids s') :
    Reads [] s (ids.map .node) s' := by
  cases h with
  | none => exact refl
  | list hs => exact attributeList hs

theorem statementList (h : StatementList ReadsRule s id s') : Reads [] s [.node id] s' := by
  cases h with
  | colon hc hs => exact reduce (.transparentList .colon _) ((mark hc rfl).next (statements hs))
  | braced ho hs hc =>
    exact reduce (.transparentList .braced _)
      (((mark ho rfl).next (statements hs)).next (mark hc rfl))

theorem casePattern {pattern : CasePattern} (h : CasePatternRead ReadsRule s pattern s') :
    Reads [] s pattern.slots s' := by
  cases h with
  | default hd => exact word hd
  | pattern _ hr => exact hr

theorem matchCase {more : Bool} (h : MatchCase ReadsRule s id more s') :
    Reads [] s [.node id] s' := by
  obtain ⟨hc, hp, hb⟩ := h
  exact reduce (.matchCase _ _) (((mark hc rfl).next (casePattern hp)).next (body hb))

theorem operand (h : Operand ReadsRule s id s') : Reads [] s [.node id] s' := by
  cases h with
  | form _ hr => exact hr
  | statement _ _ hr => exact hr

theorem suffixes {power : Power} {left : NodeId} (h : Suffixes ReadsRule power s left id s') :
    Reads [.node left] s [.node id] s' := by
  induction h with
  | stop => exact refl
  | take _ _ hr _ ih => exact trans hr ih

end Reads

theorem kind_of_unary {kind : Token.Kind} (h : Table.operands kind = some .unary) :
    kind = (UnaryOp.ofKind kind).kind := by
  cases kind <;> first | rfl | cases h

theorem reads_of_statement {maxDepth : Nat} {rule : Rule} {s s' : State} {id : NodeId}
    (hf : rule.family = .statement) (h : Production ReadsRule maxDepth rule s id s') :
    ReadsRule rule s id s' := by
  unfold ReadsRule
  cases h with
  | statement _ hr => exact hr
  | importStatement hk hp =>
    exact ((Reads.mark hk rfl).next (.path hp)).reduce (.importStatement _)
  | doStatement hk _ hv => exact ((Reads.mark hk rfl).next hv).reduce (.doStatement _)
  | retryCase hk hc hv =>
    exact (((Reads.mark hk rfl).next (.mark hc rfl)).next hv).reduce (.retryCase _)
  | returnStatement hk hv => exact ((Reads.mark hk rfl).next hv).reduce (.returnStatement _)
  | yieldStatement hk ht _ hv =>
    have hv := Reads.frame (c := [.mark .yieldWord]) hv
    exact (((Reads.mark hk rfl).next ht).trans hv).reduce (.yieldStatement _)
  | batchAttributes hk ht _ hs hm hl =>
    subst hs
    have hy := (((Reads.mark hk rfl).next ht).reduce (.yieldAttribute _)).next (.moreAttributes hm)
    exact (hy.next (.statementList hl)).reduce (.batchAttributes (_ :: _) _)
  | ifStatement hk _ hc ht he =>
    have he := Reads.optional rfl .word he
    exact ((((Reads.mark hk rfl).next hc).next ht).next he).reduce (.ifStatement _ _ _)
  | ifLet hk hl hb ht he =>
    have hb := (Reads.mark hl rfl).trans (.variableAfterLet hb)
    have he := Reads.optional rfl .word he
    have hthen := ((Reads.mark hk rfl).next hb).next (.statementOrBlock ht)
    exact (hthen.next he).reduce (.ifLet _ _ _)
  | eachRange hk ho hp hi hr hc hb =>
    exact (((((((Reads.mark hk rfl).next (.mark ho rfl)).next hp).next (.mark hi rfl)).next hr).next
      (.mark hc rfl)).next hb).reduce (.eachRange _ _ _)
  | each hk hb ht =>
    exact (((Reads.mark hk rfl).next (.bare hb)).next (.statementOrBlock ht)).reduce (.each _ _)
  | matchStatement hk ht ho hs hc =>
    exact (((((Reads.mark hk rfl).next ht).next (.mark ho rfl)).next
      (.collected_nodes .matchCase hs)).next (.mark hc rfl)).reduce (.matchStatement _ _)
  | letVariable hk hv => exact (Reads.mark hk rfl).trans (.variableAfterLet hv)
  | letFunction hk hn hs hb =>
    exact ((((Reads.mark hk rfl).next (.name hn)).next hs).next (.body hb)).reduce
      (.letFunction _ _ _)
  | letStruct hk hs hp =>
    exact (((Reads.mark hk rfl).next (.mark hs rfl)).next hp).reduce (.letStruct _)
  | letEnum hk he hn hx ho hs hc =>
    have hv := Reads.collected_nodes (fun ⟨_, hr⟩ => Reads.next hr .skip_comma) hs
    exact (((((((Reads.mark hk rfl).next (.mark he rfl)).next (.name hn)).next (.external hx)).next
      (.mark ho rfl)).next hv).next (.mark hc rfl)).reduce (.letEnum _ _ _)
  | _ => cases hf

theorem reads_of_expression {maxDepth : Nat} {rule : Rule} {s s' : State} {id : NodeId}
    (hf : rule.family = .expression) (h : Production ReadsRule maxDepth rule s id s') :
    ReadsRule rule s id s' := by
  unfold ReadsRule
  cases h with
  | typeExpression ht => exact ht
  | integer hk hv => exact (Reads.integer hk hv).reduce (.integer _)
  | string hk => exact (Reads.string hk).reduce (.string _)
  | identifier hn => exact (Reads.name hn).reduce (.identifier _)
  | unary hk hr hn =>
    have ho := Reads.mark (kind_of_unary hk) (UnaryOp.isMark_kind _)
    exact (ho.next hr).reduce (.unary _ _)
  | emptyTuple ho hc => exact ((Reads.mark ho rfl).next (.mark hc rfl)).reduce (.tuple [])
  | paren ho hr hc => exact (((Reads.mark ho rfl).next hr).next (.mark hc rfl)).reduce (.paren _)
  | longTuple ho hr hc hs =>
    have hmore := (Reads.comma hc).next (.elements rfl hs)
    exact ((((Reads.mark ho rfl).next hr).next hmore).next (.mark hs.closed rfl)).reduce
      (.tuple (_ :: _))
  | array ho hs =>
    have hs := (Reads.elements rfl hs).next (.mark hs.closed rfl)
    exact ((Reads.mark ho rfl).next hs).reduce (.array _)
  | block ho hs hc =>
    exact (((Reads.mark ho rfl).next (.statements hs)).next (.mark hc rfl)).reduce (.block _)
  | expression hd ho hc => exact ((Reads.operand ho).trans hc).level
  | continuation hs => exact .suffixes hs
  | binary hk ho hr hl hn =>
    have ho := Reads.mark ho.symm (BinaryOp.isMark_kind _)
    exact ((ho.frame (c := [.node _])).next hr).reduce (.binary _ _ _)
  | call hk hr hl hn => exact (Reads.frame (c := [.node _]) hr).reduce (.call _ _)
  | index hk hr hl hn => exact (Reads.frame (c := [.node _]) hr).reduce (.index _ _)
  | member hk hd hn hl =>
    exact (((Reads.mark hd rfl).frame (c := [.node _])).next (.name hn)).reduce (.member _ _)
  | tuple ho hs =>
    have hs := (Reads.elements rfl hs).next (.mark hs.closed rfl)
    exact ((Reads.mark ho rfl).next hs).reduce (.tuple _)
  | _ => cases hf

theorem reads_of_pattern {maxDepth : Nat} {rule : Rule} {s s' : State} {id : NodeId}
    (hf : rule.family = .pattern) (h : Production ReadsRule maxDepth rule s id s') :
    ReadsRule rule s id s' := by
  unfold ReadsRule
  cases h with
  | signature ha ht hs =>
    have ht := Reads.optional rfl (fun h => .mark h rfl) ht
    exact ((Reads.next ha ht).next (.signatureAttributes hs)).reduce (.functionSignature _ _ _)
  | pattern hd hf hr => exact Reads.level hr
  | restPattern hk hr => exact ((Reads.mark hk rfl).next hr).reduce (.restPattern _)
  | namedEnum hp hr => exact hr
  | namedIdentifier hp hr => exact hr
  | identifierPattern hn ht hd =>
    have ht := Reads.optional rfl (fun h => .mark h rfl) ht
    have hd := Reads.optional rfl (fun h => .mark h.2 rfl) hd
    exact (((Reads.name hn).next ht).next hd).reduce (.identifierPattern _ _ _)
  | tuplePattern ho hs =>
    have hs := (Reads.elements rfl hs).next (.mark hs.closed rfl)
    exact ((Reads.mark ho rfl).next hs).reduce (.tuplePattern _)
  | enumPattern hn hr => exact ((Reads.name hn).next hr).reduce (.enumPattern _ _)
  | literalPattern hk hr hn => exact Reads.reduce (.literalPattern _) hr
  | _ => cases hf

/-- Every production reads the tokens of its construct into one node, in source order. -/
theorem reads_of_production {maxDepth : Nat} {rule : Rule} {s s' : State} {id : NodeId}
    (h : Production ReadsRule maxDepth rule s id s') : ReadsRule rule s id s' := by
  cases hf : rule.family with
  | statement => exact reads_of_statement hf h
  | expression => exact reads_of_expression hf h
  | pattern => exact reads_of_pattern hf h

end Parse
end Smaug
