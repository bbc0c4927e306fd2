import Smaug.Proofs.Tree.PostOrder

/-! # What constructs are made of

A construct is made of names and of other nodes, and each node plays a role in it: the condition of
an `if` is a tuple, a case has a block or a value, and only the elements of a tuple pattern may
carry a default value.  An arena is well-sorted when every reference leads to a node that can play
its role.
-/

namespace Smaug

namespace Shape

/-- Whether a construct is a statement.  Without attributes there is no statement list under
them. -/
def isStatement : Shape → Bool
  | importStatement .. | doStatement .. | retryCase .. | yieldStatement ..
  | batchAttributes (_ :: _) _ | returnStatement .. | ifStatement .. | ifLet .. | each ..
  | eachRange .. | matchStatement .. | letVariable .. | letFunction .. | letStruct ..
  | letEnum .. => true
  | _ => false

def isExpression : Shape → Bool
  | identifier .. | integer .. | string .. | unary .. | binary .. | paren .. | tuple .. | array ..
  | block .. | call .. | index .. | member .. => true
  | _ => false

def isValuePattern : Shape → Bool
  | restPattern .. | identifierPattern .. | tuplePattern .. | enumPattern .. | literalPattern .. =>
    true
  | _ => false

def default? : Shape → Option NodeId
  | identifierPattern _ _ default => default
  | _ => none

end Shape

/-- The role of a node in the construct that it is part of. -/
inductive Role where
  /-- The header of a module. -/
  | header
  | statement
  /-- An expression or a statement. -/
  | operand
  /-- A statement or a block. -/
  | branch
  | block | tuple | array
  /-- An integer or a string. -/
  | literal
  /-- A pattern and a value. -/
  | binding
  | matchCase
  /-- `yield` and a type. -/
  | yieldAttribute
  /-- The statements under attributes. -/
  | list
  /-- The arguments of a function, its return type and its attributes. -/
  | signature
  /-- A name and a tuple pattern. -/
  | variant
  /-- A tuple pattern. -/
  | arguments
  /-- A name without a default value. -/
  | binder
  /-- A pattern without a default value. -/
  | pattern
  /-- A pattern, with or without a default value. -/
  | element
deriving DecidableEq, Inhabited

def Role.admits : Role → Shape → Bool
  | header, .moduleHeader .. => true
  | statement, shape => shape.isStatement
  | operand, shape => shape.isExpression || shape.isStatement
  | branch, .block .. => true
  | branch, shape => shape.isStatement
  | block, .block .. => true
  | tuple, .tuple .. => true
  | array, .array .. => true
  | literal, .integer .. | literal, .string .. => true
  | binding, .letVariable .. => true
  | matchCase, .matchCase .. => true
  | yieldAttribute, .yieldAttribute .. => true
  | list, .transparentList .. => true
  | signature, .functionSignature .. => true
  | variant, .enumPattern .. => true
  | arguments, .tuplePattern .. => true
  | binder, .identifierPattern _ _ default => default.isNone
  | pattern, shape => shape.isValuePattern && shape.default?.isNone
  | element, shape => shape.isValuePattern
  | _, _ => false

def Role.Within (role other : Role) : Prop := ∀ shape, role.admits shape → other.admits shape

theorem Role.Within.refl (role : Role) : role.Within role := fun _ h => h

theorem Role.Within.of_eq {role other : Role} (h : role = other) : role.Within other :=
  h ▸ .refl role

/-- What a construct is made of. -/
inductive Part where
  | name (name : Name)
  | node (role : Role) (id : NodeId)

namespace Part

def name? : Part → Option Name
  | .name n => some n
  | .node _ _ => none

def reference? : Part → Option (Role × NodeId)
  | .name _ => none
  | .node role id => some (role, id)

def ofPath (path : Path) : List Part := path.names.map .name

def ofBody : Body → Part
  | .block id => node .block id
  | .value id => node .operand id

end Part

namespace Shape

def parts : Shape → List Part
  | identifier path | moduleHeader path | importStatement path => Part.ofPath path
  | integer _ | string _ => []
  | unary _ operand | paren operand | doStatement operand | yieldStatement operand
  | returnStatement operand | retryCase operand | yieldAttribute operand =>
    [.node .operand operand]
  | binary _ lhs rhs => [.node .operand lhs, .node .operand rhs]
  | tuple elements | array elements => elements.map (.node .operand)
  | block statements | transparentList _ statements => statements.map (.node .statement)
  | call callee arguments => [.node .operand callee, .node .tuple arguments]
  | index target indices => [.node .operand target, .node .array indices]
  | member object path => .node .operand object :: Part.ofPath path
  | ifStatement condition thenBranch elseBranch =>
    .node .tuple condition :: .node .operand thenBranch :: elseBranch.toList.map (.node .operand)
  | ifLet binding thenBranch elseBranch =>
    .node .binding binding :: .node .branch thenBranch :: elseBranch.toList.map (.node .operand)
  | each binding body => [.node .binding binding, .node .branch body]
  | eachRange pattern range body =>
    [.node .pattern pattern, .node .operand range, .node .operand body]
  | matchStatement scrutinee cases => .node .tuple scrutinee :: cases.map (.node .matchCase)
  | matchCase (.default _) body => [.ofBody body]
  | matchCase (.pattern pattern) body => [.node .pattern pattern, .ofBody body]
  | batchAttributes attributes body => attributes.map (.node .yieldAttribute) ++ [.node .list body]
  | letVariable pattern value => [.node .pattern pattern, .node .operand value]
  | letFunction name signature body => [.name name, .node .signature signature, .ofBody body]
  | letStruct pattern => [.node .variant pattern]
  | letEnum name _ variants => .name name :: variants.map (.node .variant)
  | restPattern binder => [.node .binder binder]
  | identifierPattern name type default =>
    .name name :: (type.toList ++ default.toList).map (.node .operand)
  | tuplePattern elements => elements.map (.node .element)
  | enumPattern name arguments => [.name name, .node .arguments arguments]
  | literalPattern literal => [.node .literal literal]
  | functionSignature arguments returnType attributes =>
    .node .arguments arguments ::
      (returnType.toList.map (.node .operand) ++ attributes.map (.node .yieldAttribute))

def names (shape : Shape) : List Name := shape.parts.filterMap Part.name?

def references (shape : Shape) : List (Role × NodeId) := shape.parts.filterMap Part.reference?

end Shape

@[simp] theorem Part.filterMap_reference?_node (role : Role) (ids : List NodeId) :
    ids.filterMap (reference? ∘ node role) = ids.map (role, ·) := by
  change ids.filterMap (fun id => some (role, id)) = _
  rw [List.filterMap_eq_map']

@[simp] theorem Part.filterMap_reference?_ofPath (path : Path) :
    (ofPath path).filterMap reference? = [] := by
  simp [ofPath, reference?]

/-- Every child of a node has a role. -/
theorem Shape.references_children (shape : Shape) :
    shape.references.map Prod.snd = shape.children := by
  have hsnd (role : Role) : Prod.snd ∘ (fun id : NodeId => (role, id)) = id := rfl
  cases shape with
  | matchCase pattern body => cases pattern <;> cases body <;> rfl
  | letFunction name signature body => cases body <;> rfl
  | _ => simp [references, parts, children, Part.reference?, List.filterMap_cons, hsnd]

def HasRole (nodes : Array Node) (role : Role) (id : NodeId) : Prop :=
  ∃ node, nodes[id]? = some node ∧ role.admits node.shape

theorem HasRole.within {nodes : Array Node} {role other : Role} {id : NodeId}
    (h : HasRole nodes role id) (hw : role.Within other) : HasRole nodes other id := by
  obtain ⟨node, hn, ha⟩ := h
  exact ⟨node, hn, hw _ ha⟩

theorem HasRole.mono {nodes more : Array Node} {role : Role} {id : NodeId}
    (hm : ∀ {id : NodeId} {node : Node}, nodes[id]? = some node → more[id]? = some node)
    (h : HasRole nodes role id) : HasRole more role id := by
  obtain ⟨node, hn, ha⟩ := h
  exact ⟨node, hm hn, ha⟩

/-- Every reference leads to a node that can play its role, and attributes are never absent where a
statement list stands under them. -/
structure Sorted (nodes : Array Node) : Prop where
  reference : ∀ (id : NodeId) (node : Node), nodes[id]? = some node →
    ∀ role child, (role, child) ∈ node.shape.references → HasRole nodes role child
  attributes : ∀ (id : NodeId) attributes body span,
    nodes[id]? = some (⟨.batchAttributes attributes body, span⟩ : Node) → attributes ≠ []

theorem Sorted.empty : Sorted #[] := ⟨by simp, by simp⟩

theorem Role.not_admits_bare {role : Role} {body : NodeId} :
    role.admits (.batchAttributes [] body) = false := by
  cases role <;> rfl

/-- A node whose references lead to nodes of the right roles can be added. -/
theorem Sorted.push {nodes : Array Node} (role : Role) {shape : Shape} (span : Span)
    (h : Sorted nodes)
    (hr : ∀ role child, .node role child ∈ shape.parts → HasRole nodes role child)
    (ha : role.admits shape) : Sorted (nodes.push ⟨shape, span⟩) where
  reference := by
    intro id node hn role child hc
    rw [Array.getElem?_push] at hn
    suffices hold : HasRole nodes role child from hold.mono getElem?_push_of_some
    split at hn
    · cases hn
      obtain ⟨part, hp, hpart⟩ := List.mem_filterMap.1 hc
      cases part <;> cases hpart
      exact hr _ _ hp
    · exact h.reference id node hn role child hc
  attributes := by
    intro id attributes body span' hn
    rw [Array.getElem?_push] at hn
    split at hn
    · cases hn
      rintro rfl
      rw [Role.not_admits_bare] at ha
      cases ha
    · exact h.attributes id attributes body span' hn

end Smaug
