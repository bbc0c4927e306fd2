import Smaug.Proofs.Parse.Passing
import Smaug.Proofs.Tree.Parts

/-! # How constructs are laid out

A rule reads the parts of its construct in source order, with tokens between them, and then adds
the node.  What a production says beyond that, which tokens these are and what follows, is left
out here: for where nodes stand and which roles they play, only the parts count.  The span of a node
is found in one of a few ways, all of which come to the same where the tokens are in order.
-/

namespace Smaug

open Parse (State Collected)

/-- The role that the node of a rule plays.  For a literal or a name, the token at the start of the
rule tells. -/
def Rule.role (kind : Token.Kind) : Rule → Role
  | .form .array => .array
  | .form .block => .block
  | .form .signature => .signature
  | .form .primary => if Table.patterns kind = some .literal then .literal else .operand
  | .form .typeExpression | .form .unary | .form .grouping => .operand
  | .form _ => .statement
  | .expression _ | .continuation _ _ | .suffix _ _ _ => .operand
  | .tuple _ => .tuple
  | .pattern .tuple _ => .arguments
  | .pattern .enum _ => .variant
  | .pattern .identifier false => .binder
  | .pattern _ allowDefault => if allowDefault then .element else .pattern

def Role.reads : Role → Rule → Bool
  | operand, .expression _ | statement, .form .statement | branch, .form .block
  | branch, .form .statement | block, .form .block | tuple, .tuple _ | array, .form .array
  | literal, .form .primary | signature, .form .signature | variant, .pattern .enum _
  | arguments, .pattern .tuple _ | binder, .pattern .identifier _ | pattern, .pattern .any _
  | element, .pattern .any _ => true
  | _, _ => false

/-- A rule that reads a part by itself takes nothing that was read before. -/
theorem Role.left_of_reads {role : Role} {rule : Rule} (h : role.reads rule) : rule.left = [] := by
  cases rule with
  | continuation | suffix => cases role <;> cases h
  | form | expression | tuple | pattern => rfl

namespace Grammar

section
variable (R : Meaning)

/-- At least one token is passed from one state to another, and the parts read on the way are
these, where `R` says what the called rules come to. -/
inductive Laid : State → List Part → State → Prop
  | token (ht : s.hasTokens) : Laid s [] s.advance
  | name (hn : s.current.isName) : Laid s [.name s.name] s.advance
  | rule (hr : R rule s i s') (hq : role.reads rule) (hw : (rule.role s.kind).Within role) :
      Laid s [.node role i] s'
  /-- An operand that is taken further as an expression of its own. -/
  | taken (ho : R (.expression .compare) s left s₁)
      (hc : R (.continuation left .lowest) s₁ i s') : Laid s [.node .operand i] s'
  /-- A construct that is no rule of its own. -/
  | built (role : Role) (shape : Shape) (hp : Laid s shape.parts s')
      (hq : ∀ rule, role.reads rule = false) (ha : role.admits shape) :
      Laid s [.node role s'.nodes.size] (s'.push ⟨shape, s'.spanFrom s.current.span.start⟩)
  | next (h : Laid s parts s₁) (h' : Laid s₁ more s') : Laid s (parts ++ more) s'

inductive Rest (s : State) : List Part → State → Prop
  | none : Rest s [] s
  | some (h : Laid R s parts s') : Rest s parts s'

inductive LastRead : State → State → Span → Prop
  | token (ht : s.hasTokens) : LastRead s s.advance s.current.span
  | rule (hr : R rule s i s') (hl : rule.left = []) (hn : s'.nodes[i]? = some node) :
      LastRead s s' node.span

inductive SpanRead (s s' : State) : Span → Prop
  | passed : SpanRead s s' (s'.spanFrom s.current.span.start)
  /-- The span of the only thing that was read. -/
  | copied (h : LastRead R s s' span) : SpanRead s s' span
  /-- The spans of a first token and of what was read after it. -/
  | merged (ht : s.hasTokens) (h : LastRead R s.advance s' span) :
      SpanRead s s' (s.current.span.merge span)

/-- What a rule comes to, where only parts, roles and spans count. -/
inductive Constructs : Meaning
  | same (hr : R called s i s') (hl : called.left = []) (hl' : rule.left = [])
      (hw : (called.role s.kind).Within (rule.role s.kind)) : Constructs rule s i s'
  | built (shape : Shape) (hp : Laid R s shape.parts s') (hs : SpanRead R s s' span)
      (hl : rule.left = []) (ha : (rule.role s.kind).admits shape) :
      Constructs rule s s'.nodes.size (s'.push ⟨shape, span⟩)
  | pattern (hr : R called s.deeper i s') (hl : called.left = [])
      (hw : (called.role s.kind).Within (Rule.role s.kind (.pattern .any allowDefault))) :
      Constructs (.pattern .any allowDefault) s i s'.leave
  | expression (ho : R called s.deeper left s₁) (hl : called.left = [])
      (hw : (called.role s.kind).Within .operand) (hc : R (.continuation left power) s₁ i s') :
      Constructs (.expression power) s i s'.leave
  | continuation (hs : Suffixes R power s left i s') :
      Constructs (.continuation left power) s i s'
  | suffix (shape : Shape) (hp : Laid R s parts s')
      (hs : shape.parts = .node .operand left :: parts) (hn : s'.nodes[left]? = some node)
      (hb : s₁ = s ∨ s.hasTokens ∧ s₁ = s.advance) (hl : LastRead R s₁ s' span)
      (ha : Role.operand.admits shape) :
      Constructs (.suffix suffix left power) s s'.nodes.size
        (s'.push ⟨shape, node.span.merge span⟩)

end

/-! ## Tokens, names and lists -/

section
variable {R : Meaning} {s s₁ s' : State} {parts more : List Part} {kind : Token.Kind}

namespace Laid

theorem mark (h : s.kind = kind) (hk : kind ≠ .eof) : Laid R s [] s.advance :=
  .token (State.hasTokens_of_kind h hk)

theorem close (h : Laid R s parts s₁) (hc : s₁.kind = kind) (hk : kind ≠ .eof) :
    Laid R s parts s₁.advance := by
  simpa using h.next (mark hc hk)

theorem skip (h : Laid R s parts s₁) : Laid R s parts (s₁.skip .comma) := by
  unfold State.skip
  split
  · rename_i hc
    exact h.close hc nofun
  · exact h

theorem rest (h : Laid R s parts s₁) (h' : Rest R s₁ more s') : Laid R s (parts ++ more) s' := by
  cases h' with
  | none => simpa using h
  | some h' => exact h.next h'

theorem word {text : String} (h : s.current.isWord text) : Laid R s [] s.advance :=
  .token (State.hasTokens_of_isWord h)

theorem call {rule : Rule} {id : NodeId} (hr : R rule s id s')
    (hq : (rule.role s.kind).reads rule) : Laid R s [.node (rule.role s.kind) id] s' :=
  .rule hr hq (.refl _)

end Laid

theorem Rest.next (h : Rest R s parts s₁) (h' : Rest R s₁ more s') :
    Rest R s (parts ++ more) s' := by
  cases h with
  | none => exact h'
  | some h => exact .some (h.rest h')

namespace Rest

theorem collected {finished : State → Prop} {turn : State → α → Bool → State → Prop}
    {f : α → Part} (ht : ∀ {s item more s'}, turn s item more s' → Laid R s [f item] s')
    {items : List α} (h : Collected finished turn s items s') : Rest R s (items.map f) s' := by
  induction h with
  | nil => exact .none
  | last h => exact .some (ht h)
  | cons h _ ih => exact .some ((ht h).rest ih)

theorem optionally {called : State → Prop} {rule : Rule} {id : Option NodeId}
    (ht : ∀ {s}, called s → s.hasTokens) (hq : Role.operand.reads rule)
    (hw : ∀ kind, rule.role kind = .operand) (h : Optionally R called rule s id s') :
    Rest R s (id.toList.map (.node .operand)) s' := by
  cases h with
  | none => exact .none
  | some hc hr => exact .some ((Laid.token (ht hc)).next (.rule hr hq (Role.Within.of_eq (hw _))))

theorem elements {close : Token.Kind} {rule : Rule} {role : Role} {ids : List NodeId}
    (hq : role.reads rule) (hw : ∀ kind, rule.role kind = role)
    (h : Elements R close rule s ids s') : Rest R s (ids.map (.node role)) s' := by
  obtain ⟨hs, -⟩ := h
  apply collected ?_ hs
  rintro s item more s' ⟨-, hr⟩
  exact (Laid.rule hr hq (Role.Within.of_eq (hw _))).skip

theorem statements {ids : List NodeId} (h : BracedStatements R s ids s') :
    Rest R s (ids.map (.node .statement)) s' := by
  apply collected ?_ h
  rintro s item more s' ⟨-, hr⟩
  exact .call hr rfl

theorem external {external : Option External} (h : ExternalRead s external s') :
    Rest R s [] s' := by
  cases h with
  | none => exact .none
  | some he hm =>
    cases hm with
    | none => exact .some (.mark he nofun)
    | some ho hs hc =>
      have hs : Laid R s [] _ := ((Laid.mark he nofun).close ho nofun).close hs nofun
      exact .some (hs.close hc nofun)

theorem attributeList {ids : List NodeId} (h : AttributeList R s ids s') :
    Rest R s (ids.map (.node .yieldAttribute)) s' := by
  obtain ⟨-, hs⟩ := h
  apply collected ?_ hs
  rintro s item more s' ⟨hy, ht, rfl⟩
  have hl := (Laid.mark hy nofun).next (.call ht rfl)
  exact (Laid.built .yieldAttribute (.yieldAttribute _) hl (fun _ => rfl) rfl).skip

theorem moreAttributes {ids : List NodeId} (h : MoreAttributes R s ids s') :
    Rest R s (ids.map (.node .yieldAttribute)) s' := by
  cases h with
  | none => exact .none
  | comma hc => exact .some (.mark hc nofun)
  | list hc hs => exact .some ((Laid.mark hc nofun).rest (attributeList hs))

theorem signatureAttributes {ids : List NodeId} (h : SignatureAttributes R s ids s') :
    Rest R s (ids.map (.node .yieldAttribute)) s' := by
  cases h with
  | none => exact .none
  | list hs => exact attributeList hs

end Rest

/-! ## Parts of rules -/

namespace Laid

theorem path {path : Path} (h : PathRead s path s') : Laid R s (Part.ofPath path) s' := by
  obtain ⟨hn, hs⟩ := h
  refine (Laid.name hn).rest (Rest.collected ?_ hs)
  rintro s item more s' ⟨hd, hn⟩
  exact (mark hd nofun).next (.name hn)

variable {id : NodeId}

theorem letVariable {start : Nat} (h : LetVariable R start s id s') :
    ∃ pattern value s₁, Laid R s (Shape.letVariable pattern value).parts s₁ ∧
      id = s₁.nodes.size ∧ s' = s₁.push ⟨.letVariable pattern value, s₁.spanFrom start⟩ := by
  obtain ⟨hp, he, hv⟩ := h
  refine ⟨_, _, _, ?_, rfl, rfl⟩
  exact ((Laid.call hp rfl).close he nofun).next (.call hv rfl)

theorem statementOrBlock (h : StatementOrBlock R s id s') : Laid R s [.node .branch id] s' := by
  cases h with
  | block ho hr =>
    refine .rule hr rfl fun shape h => ?_
    cases shape <;> first | exact h | rfl | cases h
  | statement ho hr =>
    refine .rule hr rfl fun shape h => ?_
    cases shape <;> first | exact h | rfl

theorem body {body : Body} (h : BodyRead R s body s') : Laid R s [.ofBody body] s' := by
  cases h with
  | value he hr => exact (mark he nofun).next (.call hr rfl)
  | block _ hr => exact .call hr rfl

theorem statementList (h : StatementList R s id s') : Laid R s [.node .list id] s' := by
  cases h with
  | colon hc hs =>
    have hs := (mark hc nofun).rest (.statements hs)
    exact .built .list (.transparentList _ _) hs (fun _ => rfl) rfl
  | braced ho hs hc =>
    have hs := (mark ho nofun).rest (.statements hs)
    exact .built .list (.transparentList _ _) (hs.close hc nofun) (fun _ => rfl) rfl

theorem matchCase {more : Bool} (h : MatchCase R s id more s') :
    Laid R s [.node .matchCase id] s' := by
  obtain ⟨hc, hp, hb⟩ := h
  cases hp with
  | default hd =>
    have hd : Laid R s [] _ := (mark hc nofun).next (.word hd)
    exact .built .matchCase (.matchCase (.default _) _) (hd.next (body hb)) (fun _ => rfl) rfl
  | pattern hd hr =>
    have hp := (mark hc nofun).next (.call hr rfl)
    exact .built .matchCase (.matchCase (.pattern _) _) (hp.next (body hb)) (fun _ => rfl) rfl

end Laid

end

/-! ## What is kept -/

section
variable {R : Meaning} {s s' : State}

theorem Laid.grown (hR : ∀ {rule s i s'}, R rule s i s' → Parse.Grown s s') {parts : List Part}
    (h : Laid R s parts s') : Parse.Grown s s' := by
  induction h with
  | token | name => exact (Parse.Kept.advance _).toGrown
  | rule hr => exact hR hr
  | taken ho hc => exact (hR ho).trans (hR hc)
  | built _ _ _ _ _ ih => exact ih.trans (Parse.Kept.push _ _).toGrown
  | next _ _ ih ih' => exact ih.trans ih'

theorem Rest.grown (hR : ∀ {rule s i s'}, R rule s i s' → Parse.Grown s s') {parts : List Part}
    (h : Rest R s parts s') : Parse.Grown s s' := by
  cases h with
  | none => exact .refl s
  | some h => exact h.grown hR

end

/-! ## Rules -/

section
variable {R : Meaning} {s s' : State} {id : NodeId}

theorem role_of_statements {kind : Token.Kind} {form : Form}
    (h : Table.statements kind = some form) : Rule.role kind (.form form) = .statement := by
  unfold Table.statements at h
  split at h <;> cases h <;> rfl

theorem role_of_operands {kind : Token.Kind} {form : Form}
    (h : Table.operands kind = some form) : (Rule.role kind (.form form)).Within .operand := by
  intro shape hs
  cases kind <;> cases h <;> cases shape <;> first | exact hs | rfl | cases hs

theorem role_of_patterns {kind : Token.Kind} {form : PatternForm} {allowDefault : Bool}
    (h : Table.patterns kind = some form) :
    (Rule.role kind (.pattern form allowDefault)).Within
      (Rule.role kind (.pattern .any allowDefault)) := by
  intro shape hs
  cases kind <;> cases h <;> cases allowDefault <;> cases shape <;>
    first | exact hs | rfl | cases hs

theorem within_operand_of_statement : Role.statement.Within .operand := by
  intro shape h
  cases shape <;> first | exact h | rfl

/-- The role of a name is that of an operand. -/
theorem role_of_isName (h : s.current.isName) :
    Rule.role s.kind (.form .primary) = .operand := by
  simp only [Token.isName, Bool.or_eq_true, beq_iff_eq] at h
  rcases h with h | h <;> simp [Rule.role, State.kind, h, Table.patterns]

theorem constructs_of_statement {maxDepth : Nat} {rule : Rule} (hf : rule.family = .statement)
    (h : Production R maxDepth rule s id s') : Constructs R rule s id s' := by
  cases h with
  | statement hf hr => exact .same hr rfl rfl (role_of_statements hf ▸ .refl _)
  | importStatement hk hp =>
    exact .built (.importStatement _) ((Laid.mark hk (by decide)).next (.path hp)) .passed rfl rfl
  | doStatement hk _ hv =>
    exact .built (.doStatement _) ((Laid.mark hk (by decide)).next (.call hv rfl))
      .passed rfl rfl
  | retryCase hk hc hv =>
    exact .built (.retryCase _)
      (((Laid.mark hk (by decide)).close hc (by decide)).next (.call hv rfl)) .passed rfl rfl
  | returnStatement hk hv =>
    exact .built (.returnStatement _) ((Laid.mark hk (by decide)).next (.call hv rfl))
      .passed rfl rfl
  | yieldStatement hk ht _ hv =>
    exact .built (.yieldStatement _) ((Laid.mark hk (by decide)).next (.taken ht hv))
      .passed rfl rfl
  | batchAttributes hk ht _ hs hm hl =>
    subst hs
    have hy := (Laid.mark hk (by decide)).next (.call ht rfl)
    have hy := (Laid.built .yieldAttribute (.yieldAttribute _) hy (fun _ => rfl) rfl).rest
      (.moreAttributes hm)
    exact .built (.batchAttributes (_ :: _) _) (hy.next (.statementList hl)) .passed rfl
      rfl
  | ifStatement hk _ hc ht he =>
    have ht := ((Laid.mark hk (by decide)).next (.call hc rfl)).next (.call ht rfl)
    exact .built (.ifStatement _ _ _)
      (ht.rest (.optionally State.hasTokens_of_isWord rfl (fun _ => rfl) he)) .passed rfl rfl
  | ifLet hk hl hb ht he =>
    obtain ⟨_, _, _, hv, rfl, rfl⟩ := Laid.letVariable hb
    have hb := (Laid.mark hk (by decide)).next
      (.built .binding (.letVariable _ _) ((Laid.mark hl (by decide)).next hv) (fun _ => rfl) rfl)
    exact .built (.ifLet _ _ _) ((hb.next (.statementOrBlock ht)).rest
      (.optionally State.hasTokens_of_isWord rfl (fun _ => rfl) he)) .passed rfl rfl
  | eachRange hk ho hp hi hr hc hb =>
    have hp := (((Laid.mark hk (by decide)).close ho (by decide)).next (.call hp rfl)).close hi
      (by decide)
    exact .built (.eachRange _ _ _)
      (((hp.next (.call hr rfl)).close hc (by decide)).next (.call hb rfl))
      .passed rfl rfl
  | each hk hb ht =>
    obtain ⟨_, _, _, hv, rfl, rfl⟩ := Laid.letVariable hb
    have hb := (Laid.mark hk (by decide)).next
      (.built .binding (.letVariable _ _) hv (fun _ => rfl) rfl)
    exact .built (.each _ _) (hb.next (.statementOrBlock ht)) .passed rfl rfl
  | matchStatement hk ht ho hs hc =>
    have ht := ((Laid.mark hk (by decide)).next (.call ht rfl)).close ho (by decide)
    have hs := Rest.collected (f := .node .matchCase) .matchCase hs
    exact .built (.matchStatement _ _) ((ht.rest hs).close hc (by decide)) .passed rfl rfl
  | letVariable hk hv =>
    obtain ⟨_, _, _, hb, rfl, rfl⟩ := Laid.letVariable hv
    exact .built (.letVariable _ _) ((Laid.mark hk (by decide)).next hb) .passed rfl rfl
  | letFunction hk hn hs hb =>
    exact .built (.letFunction _ _ _)
      ((((Laid.mark hk (by decide)).next (.name hn)).next (.call hs rfl)).next (.body hb))
      .passed rfl rfl
  | letStruct hk hs hp =>
    exact .built (.letStruct _)
      (((Laid.mark hk (by decide)).close hs (by decide)).next (.call hp rfl))
      .passed rfl rfl
  | letEnum hk he hn hx ho hs hc =>
    have hn : Laid R s [.name _] _ :=
      ((((Laid.mark hk (by decide)).close he (by decide)).next (.name hn)).rest
        (.external hx)).close ho (by decide)
    have hs := Rest.collected (f := .node .variant)
      (fun ⟨_, hr⟩ => Laid.skip (.call hr rfl)) hs
    exact .built (.letEnum _ _ _) ((hn.rest hs).close hc (by decide)) .passed rfl rfl
  | _ => cases hf

theorem constructs_of_expression {maxDepth : Nat} {rule : Rule} (hf : rule.family = .expression)
    (h : Production R maxDepth rule s id s') : Constructs R rule s id s' := by
  cases h with
  | typeExpression ht => exact .same ht rfl rfl (.refl _)
  | integer hk hv =>
    refine .built (.integer _) (.mark hk (by decide))
      (.copied (.token (State.hasTokens_of_kind hk (by decide)))) rfl ?_
    simp [Rule.role, hk, Table.patterns, Role.admits]
  | string hk =>
    refine .built (.string _) (.mark hk (by decide))
      (.copied (.token (State.hasTokens_of_kind hk (by decide)))) rfl ?_
    simp [Rule.role, hk, Table.patterns, Role.admits]
  | identifier hn =>
    refine .built (.identifier _) (.name hn)
      (.copied (.token (State.hasTokens_of_isName hn))) rfl ?_
    rw [role_of_isName hn]
    rfl
  | unary hk hr hn =>
    have ht := State.hasTokens_of_unary hk
    exact .built (.unary _ _) ((Laid.token ht).next (.call hr rfl))
      (.merged ht (.rule hr rfl hn)) rfl rfl
  | emptyTuple ho hc =>
    exact .built (.tuple []) ((Laid.mark ho (by decide)).close hc (by decide)) .passed rfl rfl
  | paren ho hr hc =>
    exact .built (.paren _) (((Laid.mark ho (by decide)).next (.call hr rfl)).close hc (by decide))
      .passed rfl rfl
  | longTuple ho hr hc hs =>
    have hr := ((Laid.mark ho (by decide)).next (.call hr rfl)).close hc (by decide)
    exact .built (.tuple (_ :: _))
      ((hr.rest (.elements rfl (fun _ => rfl) hs)).close hs.closed (by decide)) .passed rfl rfl
  | array ho hs =>
    have hs := ((Laid.mark ho (by decide)).rest (.elements rfl (fun _ => rfl) hs)).close hs.closed
      (by decide)
    exact .built (.array _) hs .passed rfl rfl
  | block ho hs hc =>
    exact .built (.block _)
      (((Laid.mark ho (by decide)).rest (.statements hs)).close hc (by decide))
      .passed rfl rfl
  | expression hd ho hc =>
    cases ho with
    | form hf hr => exact .expression hr rfl (role_of_operands hf) hc
    | statement _ _ hr => exact .expression hr rfl within_operand_of_statement hc
  | continuation hs => exact .continuation hs
  | binary hk ho hr hl hn =>
    have ht := State.hasTokens_of_suffix hk
    exact .suffix (.binary _ _ _) ((Laid.token ht).next (.call hr rfl)) rfl hl (.inr ⟨ht, rfl⟩)
      (.rule hr rfl hn) rfl
  | call hk hr hl hn =>
    exact .suffix (.call _ _) (.call hr rfl) rfl hl (.inl rfl) (.rule hr rfl hn) rfl
  | index hk hr hl hn =>
    exact .suffix (.index _ _) (.call hr rfl) rfl hl (.inl rfl) (.rule hr rfl hn) rfl
  | member hk hd hn hl =>
    exact .suffix (.member _ _) ((Laid.mark hd (by decide)).next (.name hn)) rfl (by simpa using hl)
      (.inr ⟨State.hasTokens_of_suffix hk, rfl⟩) (.token (State.hasTokens_of_isName hn)) rfl
  | tuple ho hs =>
    have hs := ((Laid.mark ho (by decide)).rest (.elements rfl (fun _ => rfl) hs)).close hs.closed
      (by decide)
    exact .built (.tuple _) hs .passed rfl rfl
  | _ => cases hf

theorem constructs_of_pattern {maxDepth : Nat} {rule : Rule} (hf : rule.family = .pattern)
    (h : Production R maxDepth rule s id s') : Constructs R rule s id s' := by
  cases h with
  | signature ha ht hs =>
    have ht := Rest.optionally (State.hasTokens_of_kind · (by decide)) rfl (fun _ => rfl) ht
    exact .built (.functionSignature _ _ _)
      ((Laid.call ha rfl).rest (ht.next (.signatureAttributes hs))) .passed rfl rfl
  | pattern hd hf hr => exact .pattern hr rfl (role_of_patterns hf)
  | restPattern hk hr =>
    refine .built (.restPattern _) ((Laid.mark hk (by decide)).next (.call hr rfl)) .passed rfl ?_
    cases ‹Bool› <;> rfl
  | namedEnum hp hr =>
    refine .same hr rfl rfl fun shape h => ?_
    cases ‹Bool› <;> cases shape <;> first | exact h | rfl | cases h
  | namedIdentifier hp hr =>
    refine .same hr rfl rfl fun shape h => ?_
    cases ‹Bool› <;> cases shape <;> first | exact h | rfl
  | identifierPattern hn ht hd =>
    have ht := Rest.optionally (State.hasTokens_of_kind · (by decide)) rfl (fun _ => rfl) ht
    have hdef := Rest.optionally (fun h => State.hasTokens_of_kind h.2 (by decide)) rfl
      (fun _ => rfl) hd
    refine .built (.identifierPattern _ _ _) ?_ .passed rfl ?_
    · simpa [Shape.parts] using (Laid.name hn).rest (ht.next hdef)
    · cases ‹Bool› with
      | true => rfl
      | false =>
        cases hd with
        | none => rfl
        | some h => cases h.1
  | tuplePattern ho hs =>
    have hs := ((Laid.mark ho (by decide)).rest (.elements rfl (fun _ => rfl) hs)).close hs.closed
      (by decide)
    exact .built (.tuplePattern _) hs .passed rfl rfl
  | enumPattern hn hr =>
    exact .built (.enumPattern _ _) ((Laid.name hn).next (.call hr rfl)) .passed rfl rfl
  | literalPattern hk hr hn =>
    refine .built (.literalPattern _) (.rule hr rfl ?_) (.copied (.rule hr rfl hn)) rfl ?_
    · exact .of_eq (by simp [Rule.role, hk])
    · cases ‹Bool› <;> rfl
  | _ => cases hf

/-- Every production reads the parts of its construct, in source order. -/
theorem constructs_of_production {maxDepth : Nat} {rule : Rule}
    (h : Production R maxDepth rule s id s') : Constructs R rule s id s' := by
  cases hf : rule.family with
  | statement => exact constructs_of_statement hf h
  | expression => exact constructs_of_expression hf h
  | pattern => exact constructs_of_pattern hf h

end

end Grammar
end Smaug
