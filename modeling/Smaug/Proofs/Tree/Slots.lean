import Smaug.Text.Character
import Smaug.Token.Basic
import Smaug.Tree.Basic

/-! # How a construct is written

A construct is written as a row of slots: signs of its own, and places for the nodes it is made of.
A sign is what a token says, whatever its place and spelling.  A comma says nothing: where a list
has them is left open.  Neither does the end of the input.
-/

namespace Smaug

/-- What a token says. -/
inductive Sign where
  | mark (kind : Token.Kind)
  | name (builtIn : Bool) (text : String)
  | string (value : String)
  | integer (value : Nat)
deriving DecidableEq

/-- The signs of a token: one, or none for a comma and the end of the input.  An integer beyond all
bounds has no value. -/
def Token.signs (token : Token) : List Sign :=
  match token.kind with
  | .comma | .eof => []
  | .identifier => [.name false token.value]
  | .builtIn => [.name true token.value]
  | .string => [.string token.value]
  | .integer => [((Text.integer? token.value).map .integer).getD (.mark .integer)]
  | kind => [.mark kind]

def Token.Kind.isMark (kind : Token.Kind) : Bool := !(.comma :: valued).contains kind

theorem Token.signs_of_isMark {token : Token} {kind : Token.Kind} (h : token.kind = kind)
    (hk : kind.isMark) : token.signs = [.mark kind] := by
  unfold Token.signs
  rw [h]
  cases kind <;> first | rfl | cases hk

inductive Slot where
  | sign (sign : Sign)
  | node (id : NodeId)
  /-- A node without its first sign: the binding of an `each` leaves out its `let`. -/
  | bare (id : NodeId)
deriving DecidableEq

namespace Slot

abbrev mark (kind : Token.Kind) : Slot := .sign (.mark kind)

abbrev word (text : String) : Slot := .sign (.name false text)

def node? : Slot → Option NodeId
  | sign _ => none
  | node id | bare id => some id

end Slot

def Name.slot (name : Name) : Slot := .sign (.name name.builtIn name.text)

def dottedSlots (names : List Name) : List Slot :=
  names.flatMap fun name => [.mark .dot, name.slot]

def Path.slots (path : Path) : List Slot := path.first.slot :: dottedSlots path.more

/-- The slots of a part that is there or not, behind the sign that calls for it. -/
def optionalSlots (before : Slot) (id : Option NodeId) : List Slot :=
  id.toList.flatMap fun id => [before, .node id]

def External.slots (external : External) : List Slot :=
  .mark .externalWord ::
    external.module.toList.flatMap fun module =>
      [.mark .openParen, .sign (.string module), .mark .closeParen]

def Body.slots : Body → List Slot
  | block id => [.node id]
  | value id => [.mark .assignment, .node id]

def CasePattern.slots : CasePattern → List Slot
  | default _ => [.word "default"]
  | pattern id => [.node id]

def UnaryOp.kind : UnaryOp → Token.Kind
  | negate => .dash | plus => .plus | not => .not

theorem UnaryOp.isMark_kind (op : UnaryOp) : op.kind.isMark := by cases op <;> rfl

theorem BinaryOp.isMark_kind (op : BinaryOp) : op.kind.isMark := by cases op <;> rfl

namespace Shape

def slots : Shape → List Slot
  | identifier path => path.slots
  | integer value => [.sign (.integer value)]
  | string value => [.sign (.string value)]
  | unary op operand => [.mark op.kind, .node operand]
  | binary op lhs rhs => [.node lhs, .mark op.kind, .node rhs]
  | paren inner => [.mark .openParen, .node inner, .mark .closeParen]
  | tuple elements | tuplePattern elements =>
    .mark .openParen :: elements.map .node ++ [.mark .closeParen]
  | array elements => .mark .openBracket :: elements.map .node ++ [.mark .closeBracket]
  | block statements => .mark .openCurly :: statements.map .node ++ [.mark .closeCurly]
  | call callee arguments => [.node callee, .node arguments]
  | index target indices => [.node target, .node indices]
  | member object path => .node object :: .mark .dot :: path.slots
  | moduleHeader path => .word "module" :: path.slots
  | importStatement path => .mark .importWord :: path.slots
  | doStatement value => [.mark .doWord, .node value]
  | yieldStatement value => [.mark .yieldWord, .node value]
  | returnStatement value => [.mark .returnWord, .node value]
  | ifStatement condition thenBranch elseBranch =>
    [.mark .ifWord, .node condition, .node thenBranch] ++ optionalSlots (.word "else") elseBranch
  | ifLet binding thenBranch elseBranch =>
    [.mark .ifWord, .node binding, .node thenBranch] ++ optionalSlots (.word "else") elseBranch
  | each binding body => [.mark .eachWord, .bare binding, .node body]
  | eachRange pattern range body =>
    [.mark .eachWord, .mark .openParen, .node pattern, .mark .inWord, .node range,
      .mark .closeParen, .node body]
  | matchStatement scrutinee cases =>
    [.mark .matchWord, .node scrutinee, .mark .openCurly] ++ cases.map .node ++
      [.mark .closeCurly]
  | matchCase pattern body => .mark .caseWord :: pattern.slots ++ body.slots
  | retryCase scrutinee => [.mark .doWord, .mark .caseWord, .node scrutinee]
  | batchAttributes attributes body => attributes.map .node ++ [.node body]
  | transparentList .colon statements => .mark .colon :: statements.map .node
  | transparentList .braced statements =>
    .mark .openCurly :: statements.map .node ++ [.mark .closeCurly]
  | yieldAttribute type => [.mark .yieldWord, .node type]
  | letVariable pattern value =>
    [.mark .letWord, .node pattern, .mark .assignment, .node value]
  | letFunction name signature body =>
    [.mark .letWord, name.slot, .node signature] ++ body.slots
  | letStruct pattern => [.mark .letWord, .mark .structWord, .node pattern]
  | letEnum name external variants =>
    [.mark .letWord, .mark .enumWord, name.slot] ++ external.toList.flatMap External.slots ++
      [.mark .openCurly] ++ variants.map .node ++ [.mark .closeCurly]
  | restPattern binder => [.mark .ellipsis, .node binder]
  | identifierPattern name type default =>
    name.slot :: optionalSlots (.mark .colon) type ++ optionalSlots (.mark .assignment) default
  | enumPattern name arguments => [name.slot, .node arguments]
  | literalPattern literal => [.node literal]
  | functionSignature arguments returnType attributes =>
    .node arguments :: optionalSlots (.mark .colon) returnType ++ attributes.map .node

end Shape

/-! ## The nodes among the slots -/

def nodesOf (slots : List Slot) : List NodeId := slots.filterMap Slot.node?

@[simp] theorem nodesOf_nil : nodesOf [] = [] := rfl

@[simp] theorem nodesOf_sign (sign : Sign) (slots : List Slot) :
    nodesOf (.sign sign :: slots) = nodesOf slots := rfl

@[simp] theorem nodesOf_node (id : NodeId) (slots : List Slot) :
    nodesOf (.node id :: slots) = id :: nodesOf slots := rfl

@[simp] theorem nodesOf_bare (id : NodeId) (slots : List Slot) :
    nodesOf (.bare id :: slots) = id :: nodesOf slots := rfl

@[simp] theorem nodesOf_append (slots more : List Slot) :
    nodesOf (slots ++ more) = nodesOf slots ++ nodesOf more := List.filterMap_append

@[simp] theorem nodesOf_map_node (ids : List NodeId) : nodesOf (ids.map .node) = ids := by
  induction ids with
  | nil => rfl
  | cons id ids ih => rw [List.map_cons, nodesOf_node, ih]

@[simp] theorem nodesOf_map_sign (signs : List Sign) : nodesOf (signs.map .sign) = [] := by
  induction signs with
  | nil => rfl
  | cons sign signs ih => rw [List.map_cons, nodesOf_sign, ih]

@[simp] theorem nodesOf_slot (name : Name) (slots : List Slot) :
    nodesOf (name.slot :: slots) = nodesOf slots := rfl

@[simp] theorem nodesOf_dotted (names : List Name) : nodesOf (dottedSlots names) = [] := by
  induction names with
  | nil => rfl
  | cons name names ih => exact ih

@[simp] theorem nodesOf_path (path : Path) : nodesOf path.slots = [] := nodesOf_dotted path.more

@[simp] theorem nodesOf_optional (sign : Sign) (id : Option NodeId) :
    nodesOf (optionalSlots (.sign sign) id) = id.toList := by
  cases id <;> rfl

@[simp] theorem nodesOf_external (external : External) : nodesOf external.slots = [] := by
  obtain ⟨module, span⟩ := external
  cases module <;> rfl

@[simp] theorem nodesOf_body (body : Body) : nodesOf body.slots = [body.node] := by
  cases body <;> rfl

/-- The nodes a construct is made of stand in its slots in the order of its children. -/
theorem nodesOf_slots (shape : Shape) : nodesOf shape.slots = shape.children := by
  cases shape with
  | matchCase pattern body =>
    cases pattern <;> simp [Shape.slots, Shape.children, CasePattern.slots]
  | transparentList form statements => cases form <;> simp [Shape.slots, Shape.children]
  | letEnum name external variants => cases external <;> simp [Shape.slots, Shape.children]
  | _ => simp [Shape.slots, Shape.children]

end Smaug
