import Smaug.Proofs.Parse.Done

/-! # Productions

A production says what a rule of the language may come to: the tokens it passes, the rules it calls
one after the other, and the node it adds at the end.  `R` says what the called rules come to, so a
property of all rules is shown one production at a time, as if the called rules had it already.
-/

namespace Smaug

inductive Rule.Family where
  | statement | expression | pattern

/-- What a rule is about.  A signature counts as a pattern, which its arguments are. -/
def Rule.family : Rule → Rule.Family
  | .form .typeExpression | .form .primary | .form .unary | .form .grouping | .form .array
  | .form .block | .expression _ | .continuation .. | .suffix .. | .tuple _ => .expression
  | .form .signature | .pattern .. => .pattern
  | .form _ => .statement

def Rule.left : Rule → List NodeId
  | .continuation left _ | .suffix _ left _ => [left]
  | _ => []

namespace Grammar

open Parse (State Collected continuesAsAttributes)

/-- What rules may come to: from a state to a node and another state. -/
abbrev Meaning := Rule → State → NodeId → State → Prop

/-- What a rule may count on where it is called.  Only rules that do not look at the token they
start with count on anything. -/
def Fits (s : State) : Rule → Prop
  | .form .importStatement => s.kind = .importWord
  | .form .doStatement => s.kind = .doWord
  | .form .returnStatement => s.kind = .returnWord
  | .form .ifStatement => s.kind = .ifWord
  | .form .eachStatement => s.kind = .eachWord
  | .form .matchStatement => s.kind = .matchWord
  | .form .letStatement => s.kind = .letWord
  | .form .unary => Table.operands s.kind = some .unary
  | .suffix suffix _ power => Table.suffixes s.kind = some (power, suffix)
  | .pattern .literal _ => Table.patterns s.kind = some .literal
  | _ => True

theorem fits_statement {s : State} {form : Form} (h : Table.statements s.kind = some form) :
    Fits s (.form form) := by
  unfold Table.statements at h
  split at h <;> cases h <;> first | assumption | trivial

theorem fits_operand {s : State} {form : Form} (h : Table.operands s.kind = some form) :
    Fits s (.form form) := by
  have h' := h
  unfold Table.operands at h'
  split at h' <;> cases h' <;> first | exact h | trivial

theorem fits_pattern {s : State} {form : PatternForm} {allowDefault : Bool}
    (h : Table.patterns s.kind = some form) : Fits s (.pattern form allowDefault) := by
  have h' := h
  unfold Table.patterns at h'
  split at h' <;> cases h' <;> first | exact h | trivial

inductive DottedName : State → Name → Bool → State → Prop
  | intro (hd : s.kind = .dot) (hn : s.advance.current.isName) :
      DottedName s s.advance.name true s.advance.advance

inductive PathRead : State → Path → State → Prop
  | intro (hn : s.current.isName) (hs : Collected (·.kind ≠ .dot) DottedName s.advance names s') :
      PathRead s ⟨s.name, names, s'.spanFrom s.name.span.start⟩ s'

inductive ExternalModule : State → Option String → State → Prop
  | none (ho : s.kind ≠ .openParen) : ExternalModule s none s
  | some (ho : s.kind = .openParen) (hs : s.advance.kind = .string)
      (hc : s.advance.advance.kind = .closeParen) :
      ExternalModule s (some s.advance.current.value) s.advance.advance.advance

inductive ExternalRead : State → Option External → State → Prop
  | none (he : s.kind ≠ .externalWord) : ExternalRead s none s
  | some (he : s.kind = .externalWord) (hm : ExternalModule s.advance module s') :
      ExternalRead s (some ⟨module, s'.spanFrom s.current.span.start⟩) s'

section
variable (R : Meaning)

inductive Optionally (called : State → Prop) (rule : Rule) : State → Option NodeId → State → Prop
  | none (h : ¬called s) : Optionally called rule s none s
  | some (h : called s) (hr : R rule s.advance i s') : Optionally called rule s (some i) s'

inductive Element (close : Token.Kind) (rule : Rule) : State → NodeId → Bool → State → Prop
  | intro (hc : s.kind ≠ close) (hr : R rule s i s') :
      Element close rule s i (s'.kind == .comma) (s'.skip .comma)

/-- Elements with commas between them, up to a closing delimiter, which is not passed. -/
inductive Elements (close : Token.Kind) (rule : Rule) (s : State) (ids : List NodeId)
    (s' : State) : Prop
  | intro (hs : Collected (·.kind = close) (Element R close rule) s ids s')
      (hc : s'.kind = close)

theorem Elements.closed {R : Meaning} {close : Token.Kind} {rule : Rule} {s s' : State}
    {ids : List NodeId} (h : Elements R close rule s ids s') : s'.kind = close := by
  cases h with
  | intro _ hc => exact hc

inductive BracedStatement : State → NodeId → Bool → State → Prop
  | intro (hc : s.hasTokens ∧ s.kind ≠ .closeCurly) (hr : R (.form .statement) s i s') :
      BracedStatement s i true s'

abbrev BracedStatements : State → List NodeId → State → Prop :=
  Collected (fun s => ¬(s.hasTokens ∧ s.kind ≠ .closeCurly)) (BracedStatement R)

inductive LetVariable (start : Nat) : State → NodeId → State → Prop
  | intro (hp : R (.pattern .any false) s pattern s₁) (he : s₁.kind = .assignment)
      (hv : R (.expression .lowest) s₁.advance value s₂) :
      LetVariable start s s₂.nodes.size (s₂.push ⟨.letVariable pattern value, s₂.spanFrom start⟩)

inductive StatementOrBlock : State → NodeId → State → Prop
  | block (ho : s.kind = .openCurly) (hr : R (.form .block) s i s') : StatementOrBlock s i s'
  | statement (ho : s.kind ≠ .openCurly) (hr : R (.form .statement) s i s') :
      StatementOrBlock s i s'

inductive BodyRead : State → Body → State → Prop
  | value (he : s.kind = .assignment) (hr : R (.expression .lowest) s.advance i s') :
      BodyRead s (.value i) s'
  | block (ho : s.kind = .openCurly) (hr : R (.form .block) s i s') : BodyRead s (.block i) s'

inductive Attribute : State → NodeId → Bool → State → Prop
  | intro (hy : s.kind = .yieldWord) (ht : R (.expression .compare) s.advance type s₁)
      (hs : s₂ = s₁.push ⟨.yieldAttribute type, s₁.spanFrom s.current.span.start⟩) :
      Attribute s s₁.nodes.size (s₂.kind == .comma) (s₂.skip .comma)

inductive AttributeList (s : State) (ids : List NodeId) (s' : State) : Prop
  | intro (hy : s.kind = .yieldWord)
      (hs : Collected (·.kind ≠ .yieldWord) (Attribute R) s ids s')

inductive MoreAttributes : State → List NodeId → State → Prop
  | none (hc : s.kind ≠ .comma) : MoreAttributes s [] s
  | comma (hc : s.kind = .comma) (hy : s.advance.kind ≠ .yieldWord) : MoreAttributes s [] s.advance
  | list (hc : s.kind = .comma) (hs : AttributeList R s.advance ids s') : MoreAttributes s ids s'

inductive SignatureAttributes : State → List NodeId → State → Prop
  | none (hc : s.kind ≠ .comma) (hy : s.kind ≠ .yieldWord) : SignatureAttributes s [] s
  | list (hs : AttributeList R s ids s') : SignatureAttributes s ids s'

inductive StatementList : State → NodeId → State → Prop
  | colon (hc : s.kind = .colon) (hs : BracedStatements R s.advance ids s₁) :
      StatementList s s₁.nodes.size
        (s₁.push ⟨.transparentList .colon ids, s₁.spanFrom s.current.span.start⟩)
  | braced (ho : s.kind = .openCurly) (hs : BracedStatements R s.advance ids s₁)
      (hc : s₁.kind = .closeCurly) :
      StatementList s s₁.advance.nodes.size
        (s₁.advance.push ⟨.transparentList .braced ids, s₁.advance.spanFrom s.current.span.start⟩)

inductive CasePatternRead : State → CasePattern → State → Prop
  | default (hd : s.current.isWord "default") :
      CasePatternRead s (.default s.current.span) s.advance
  | pattern (hd : s.current.isWord "default" = false) (hr : R (.pattern .any false) s i s') :
      CasePatternRead s (.pattern i) s'

inductive MatchCase : State → NodeId → Bool → State → Prop
  | intro (hc : s.kind = .caseWord) (hp : CasePatternRead R s.advance pattern s₁)
      (hb : BodyRead R s₁ body s₂) :
      MatchCase s s₂.nodes.size true
        (s₂.push ⟨.matchCase pattern body, s₂.spanFrom s.current.span.start⟩)

inductive Variant : State → NodeId → Bool → State → Prop
  | intro (hc : s.hasTokens ∧ s.kind ≠ .closeCurly) (hr : R (.pattern .enum false) s i s') :
      Variant s i true (s'.skip .comma)

inductive Operand : State → NodeId → State → Prop
  | form (hf : Table.operands s.kind = some form) (hr : R (.form form) s i s') : Operand s i s'
  | statement (hf : Table.operands s.kind = none) (hs : (Table.statements s.kind).isSome)
      (hr : R (.form .statement) s i s') : Operand s i s'

/-- Suffixes, each taken as long as it binds more tightly than `power`. -/
inductive Suffixes (power : Power) : State → NodeId → NodeId → State → Prop
  | stop (h : ∀ next suffix, Table.suffixes s.kind = some (next, suffix) → ¬next.tighter power) :
      Suffixes power s left left s
  | take (hn : Table.suffixes s.kind = some (next, suffix)) (ht : next.tighter power)
      (hr : R (.suffix suffix left next) s middle s₁) (hs : Suffixes power s₁ middle i s') :
      Suffixes power s left i s'

/-- What each rule of the language may come to, where `R` says what the called rules come to. -/
inductive Production (maxDepth : Nat) : Meaning
  | statement (hf : Table.statements s.kind = some form) (hr : R (.form form) s i s') :
      Production maxDepth (.form .statement) s i s'
  | importStatement (hk : s.kind = .importWord) (hp : PathRead s.advance path s₁) :
      Production maxDepth (.form .importStatement) s s₁.nodes.size
        (s₁.push ⟨.importStatement path, s₁.spanFrom s.current.span.start⟩)
  | doStatement (hk : s.kind = .doWord) (hc : s.advance.kind ≠ .caseWord)
      (hv : R (.expression .lowest) s.advance value s₁) :
      Production maxDepth (.form .doStatement) s s₁.nodes.size
        (s₁.push ⟨.doStatement value, s₁.spanFrom s.current.span.start⟩)
  | retryCase (hk : s.kind = .doWord) (hc : s.advance.kind = .caseWord)
      (hv : R (.expression .lowest) s.advance.advance value s₁) :
      Production maxDepth (.form .doStatement) s s₁.nodes.size
        (s₁.push ⟨.retryCase value, s₁.spanFrom s.current.span.start⟩)
  | returnStatement (hk : s.kind = .returnWord)
      (hv : R (.expression .lowest) s.advance value s₁) :
      Production maxDepth (.form .returnStatement) s s₁.nodes.size
        (s₁.push ⟨.returnStatement value, s₁.spanFrom s.current.span.start⟩)
  | yieldStatement (hk : s.kind = .yieldWord) (ht : R (.expression .compare) s.advance operand s₁)
      (hc : continuesAsAttributes .standard s₁ = false)
      (hv : R (.continuation operand .lowest) s₁ value s₂) :
      Production maxDepth (.form .yieldStatement) s s₂.nodes.size
        (s₂.push ⟨.yieldStatement value, s₂.spanFrom s.current.span.start⟩)
  | batchAttributes (hk : s.kind = .yieldWord) (ht : R (.expression .compare) s.advance type s₁)
      (hc : continuesAsAttributes .standard s₁ = true)
      (hs : s₂ = s₁.push ⟨.yieldAttribute type, s₁.spanFrom s.current.span.start⟩)
      (hm : MoreAttributes R s₂ more s₃) (hl : StatementList R s₃ body s₄) :
      Production maxDepth (.form .yieldStatement) s s₄.nodes.size
        (s₄.push ⟨.batchAttributes (s₁.nodes.size :: more) body,
          s₄.spanFrom s.current.span.start⟩)
  | ifStatement (hk : s.kind = .ifWord) (hl : s.advance.kind ≠ .letWord)
      (hc : R (.tuple "condition") s.advance condition s₁)
      (ht : R (.expression .lowest) s₁ thenBranch s₂)
      (he : Optionally R (·.current.isWord "else") (.expression .lowest) s₂ elseBranch s₃) :
      Production maxDepth (.form .ifStatement) s s₃.nodes.size
        (s₃.push ⟨.ifStatement condition thenBranch elseBranch,
          s₃.spanFrom s.current.span.start⟩)
  | ifLet (hk : s.kind = .ifWord) (hl : s.advance.kind = .letWord)
      (hb : LetVariable R s.advance.current.span.start s.advance.advance binding s₁)
      (ht : StatementOrBlock R s₁ thenBranch s₂)
      (he : Optionally R (·.current.isWord "else") (.expression .lowest) s₂ elseBranch s₃) :
      Production maxDepth (.form .ifStatement) s s₃.nodes.size
        (s₃.push ⟨.ifLet binding thenBranch elseBranch, s₃.spanFrom s.current.span.start⟩)
  | eachRange (hk : s.kind = .eachWord) (ho : s.advance.kind = .openParen)
      (hp : R (.pattern .any false) s.advance.advance pattern s₁) (hi : s₁.kind = .inWord)
      (hr : R (.expression .lowest) s₁.advance range s₂) (hc : s₂.kind = .closeParen)
      (hb : R (.expression .lowest) s₂.advance body s₃) :
      Production maxDepth (.form .eachStatement) s s₃.nodes.size
        (s₃.push ⟨.eachRange pattern range body, s₃.spanFrom s.current.span.start⟩)
  | each (hk : s.kind = .eachWord)
      (hb : LetVariable R s.advance.current.span.start s.advance binding s₁)
      (ht : StatementOrBlock R s₁ body s₂) :
      Production maxDepth (.form .eachStatement) s s₂.nodes.size
        (s₂.push ⟨.each binding body, s₂.spanFrom s.current.span.start⟩)
  | matchStatement (hk : s.kind = .matchWord) (ht : R (.tuple "tuple") s.advance scrutinee s₁)
      (ho : s₁.kind = .openCurly)
      (hs : Collected (·.kind ≠ .caseWord) (MatchCase R) s₁.advance cases s₂)
      (hc : s₂.kind = .closeCurly) :
      Production maxDepth (.form .matchStatement) s s₂.advance.nodes.size
        (s₂.advance.push ⟨.matchStatement scrutinee cases,
          s₂.advance.spanFrom s.current.span.start⟩)
  | letVariable (hk : s.kind = .letWord)
      (hv : LetVariable R s.current.span.start s.advance i s') :
      Production maxDepth (.form .letStatement) s i s'
  | letFunction (hk : s.kind = .letWord) (hn : s.advance.current.isName)
      (hs : R (.form .signature) s.advance.advance signature s₁) (hb : BodyRead R s₁ body s₂) :
      Production maxDepth (.form .letStatement) s s₂.nodes.size
        (s₂.push ⟨.letFunction s.advance.name signature body, s₂.spanFrom s.current.span.start⟩)
  | letStruct (hk : s.kind = .letWord) (hs : s.advance.kind = .structWord)
      (hp : R (.pattern .enum false) s.advance.advance pattern s₁) :
      Production maxDepth (.form .letStatement) s s₁.nodes.size
        (s₁.push ⟨.letStruct pattern, s₁.spanFrom s.current.span.start⟩)
  | letEnum (hk : s.kind = .letWord) (he : s.advance.kind = .enumWord)
      (hn : s.advance.advance.current.isName)
      (hx : ExternalRead s.advance.advance.advance module s₁) (ho : s₁.kind = .openCurly)
      (hs : Collected (fun s => ¬(s.hasTokens ∧ s.kind ≠ .closeCurly)) (Variant R)
        s₁.advance variants s₂)
      (hc : s₂.kind = .closeCurly) :
      Production maxDepth (.form .letStatement) s s₂.advance.nodes.size
        (s₂.advance.push ⟨.letEnum s.advance.advance.name module variants,
          s₂.advance.spanFrom s.current.span.start⟩)
  | typeExpression (ht : R (.expression .compare) s i s') :
      Production maxDepth (.form .typeExpression) s i s'
  | integer (hk : s.kind = .integer) (hv : Text.integer? s.current.value = some value) :
      Production maxDepth (.form .primary) s s.advance.nodes.size
        (s.advance.push ⟨.integer value, s.current.span⟩)
  | string (hk : s.kind = .string) :
      Production maxDepth (.form .primary) s s.advance.nodes.size
        (s.advance.push ⟨.string s.current.value, s.current.span⟩)
  | identifier (hn : s.current.isName) :
      Production maxDepth (.form .primary) s s.advance.nodes.size
        (s.advance.push ⟨.identifier (.single s.name), s.current.span⟩)
  | unary (hk : Table.operands s.kind = some .unary)
      (hr : R (.expression .unary) s.advance operand s₁) (hn : s₁.nodes[operand]? = some node) :
      Production maxDepth (.form .unary) s s₁.nodes.size
        (s₁.push ⟨.unary (.ofKind s.kind) operand, s.current.span.merge node.span⟩)
  | emptyTuple (ho : s.kind = .openParen) (hc : s.advance.kind = .closeParen) :
      Production maxDepth (.form .grouping) s s.advance.advance.nodes.size
        (s.advance.advance.push ⟨.tuple [], s.advance.advance.spanFrom s.current.span.start⟩)
  | paren (ho : s.kind = .openParen) (hr : R (.expression .lowest) s.advance held s₁)
      (hc : s₁.kind = .closeParen) :
      Production maxDepth (.form .grouping) s s₁.advance.nodes.size
        (s₁.advance.push ⟨.paren held, s₁.advance.spanFrom s.current.span.start⟩)
  | longTuple (ho : s.kind = .openParen) (hr : R (.expression .lowest) s.advance first s₁)
      (hc : s₁.kind = .comma)
      (hs : Elements R .closeParen (.expression .lowest) s₁.advance more s₂) :
      Production maxDepth (.form .grouping) s s₂.advance.nodes.size
        (s₂.advance.push ⟨.tuple (first :: more), s₂.advance.spanFrom s.current.span.start⟩)
  | array (ho : s.kind = .openBracket)
      (hs : Elements R .closeBracket (.expression .lowest) s.advance elements s₁) :
      Production maxDepth (.form .array) s s₁.advance.nodes.size
        (s₁.advance.push ⟨.array elements, s₁.advance.spanFrom s.current.span.start⟩)
  | block (ho : s.kind = .openCurly) (hs : BracedStatements R s.advance statements s₁)
      (hc : s₁.kind = .closeCurly) :
      Production maxDepth (.form .block) s s₁.advance.nodes.size
        (s₁.advance.push ⟨.block statements, s₁.advance.spanFrom s.current.span.start⟩)
  | signature (ha : R (.pattern .tuple true) s arguments s₁)
      (ht : Optionally R (·.kind = .colon) (.expression .compare) s₁ returnType s₂)
      (hs : SignatureAttributes R s₂ attributes s₃) :
      Production maxDepth (.form .signature) s s₃.nodes.size
        (s₃.push ⟨.functionSignature arguments returnType attributes,
          s₃.spanFrom s.current.span.start⟩)
  | expression (hd : s.depth < maxDepth) (ho : Operand R s.deeper left s₁)
      (hc : R (.continuation left power) s₁ i s₂) :
      Production maxDepth (.expression power) s i s₂.leave
  | continuation (hs : Suffixes R power s left i s') :
      Production maxDepth (.continuation left power) s i s'
  | binary (hk : Table.suffixes s.kind = some (power, .binary)) (ho : op.kind = s.kind)
      (hr : R (.expression power) s.advance right s₁) (hl : s₁.nodes[left]? = some leftNode)
      (hn : s₁.nodes[right]? = some rightNode) :
      Production maxDepth (.suffix .binary left power) s s₁.nodes.size
        (s₁.push ⟨.binary op left right, leftNode.span.merge rightNode.span⟩)
  | call (hk : Table.suffixes s.kind = some (power, .call))
      (hr : R (.tuple "argument list") s arguments s₁) (hl : s₁.nodes[left]? = some leftNode)
      (hn : s₁.nodes[arguments]? = some argumentsNode) :
      Production maxDepth (.suffix .call left power) s s₁.nodes.size
        (s₁.push ⟨.call left arguments, leftNode.span.merge argumentsNode.span⟩)
  | index (hk : Table.suffixes s.kind = some (power, .index))
      (hr : R (.form .array) s indices s₁) (hl : s₁.nodes[left]? = some leftNode)
      (hn : s₁.nodes[indices]? = some indicesNode) :
      Production maxDepth (.suffix .index left power) s s₁.nodes.size
        (s₁.push ⟨.index left indices, leftNode.span.merge indicesNode.span⟩)
  | member (hk : Table.suffixes s.kind = some (power, .member)) (hd : s.kind = .dot)
      (hn : s.advance.current.isName) (hl : s.nodes[left]? = some leftNode) :
      Production maxDepth (.suffix .member left power) s s.advance.advance.nodes.size
        (s.advance.advance.push ⟨.member left (.single s.advance.name),
          leftNode.span.merge s.advance.current.span⟩)
  | tuple (ho : s.kind = .openParen)
      (hs : Elements R .closeParen (.expression .lowest) s.advance elements s₁) :
      Production maxDepth (.tuple construct) s s₁.advance.nodes.size
        (s₁.advance.push ⟨.tuple elements, s₁.advance.spanFrom s.current.span.start⟩)
  | pattern (hd : s.depth < maxDepth) (hf : Table.patterns s.kind = some form)
      (hr : R (.pattern form allowDefault) s.deeper i s₁) :
      Production maxDepth (.pattern .any allowDefault) s i s₁.leave
  | restPattern (hk : s.kind = .ellipsis)
      (hr : R (.pattern .identifier false) s.advance binder s₁) :
      Production maxDepth (.pattern .rest allowDefault) s s₁.nodes.size
        (s₁.push ⟨.restPattern binder, s₁.spanFrom s.current.span.start⟩)
  | namedEnum (hp : s.peek 1 = .openParen) (hr : R (.pattern .enum allowDefault) s i s') :
      Production maxDepth (.pattern .named allowDefault) s i s'
  | namedIdentifier (hp : s.peek 1 ≠ .openParen)
      (hr : R (.pattern .identifier allowDefault) s i s') :
      Production maxDepth (.pattern .named allowDefault) s i s'
  | identifierPattern (hn : s.current.isName)
      (ht : Optionally R (·.kind = .colon) (.expression .compare) s.advance type s₁)
      (hd : Optionally R (fun s => allowDefault = true ∧ s.kind = .assignment) (.expression .lowest)
        s₁ defaultValue s₂) :
      Production maxDepth (.pattern .identifier allowDefault) s s₂.nodes.size
        (s₂.push ⟨.identifierPattern s.name type defaultValue, s₂.spanFrom s.current.span.start⟩)
  | tuplePattern (ho : s.kind = .openParen)
      (hs : Elements R .closeParen (.pattern .any true) s.advance elements s₁) :
      Production maxDepth (.pattern .tuple allowDefault) s s₁.advance.nodes.size
        (s₁.advance.push ⟨.tuplePattern elements, s₁.advance.spanFrom s.current.span.start⟩)
  | enumPattern (hn : s.current.isName)
      (hr : R (.pattern .tuple true) s.advance arguments s₁) :
      Production maxDepth (.pattern .enum allowDefault) s s₁.nodes.size
        (s₁.push ⟨.enumPattern s.name arguments, s₁.spanFrom s.current.span.start⟩)
  | literalPattern (hk : Table.patterns s.kind = some .literal)
      (hr : R (.form .primary) s literal s₁) (hn : s₁.nodes[literal]? = some node) :
      Production maxDepth (.pattern .literal allowDefault) s s₁.nodes.size
        (s₁.push ⟨.literalPattern literal, node.span⟩)

end

end Grammar
end Smaug
