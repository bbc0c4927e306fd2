import Mathlib.Data.List.Forall2
import Smaug.Proofs.Tree.Shift

/-! # Constructs in other places

What is left of a construct once its places in the source are forgotten, under other numbers for
the nodes it is made of.  Two trees are copies of each other if only the numbers of their nodes and
their places in the source tell them apart.
-/

namespace Smaug

def Token.bare (token : Token) : Token := { token with span := default }

/-- The first of some tokens, known but for their places. -/
theorem Token.cons_of_bare {tokens more : List Token} {kind : Kind} {value : String}
    (h : tokens.map bare = ⟨kind, value, default⟩ :: more) :
    ∃ span rest, tokens = ⟨kind, value, span⟩ :: rest ∧ rest.map bare = more := by
  obtain ⟨⟨kind', value', span⟩, rest, rfl, hfirst, hrest⟩ := List.map_eq_cons_iff.1 h
  obtain ⟨rfl, rfl, -⟩ := Token.mk.inj hfirst
  exact ⟨span, rest, rfl, hrest⟩

def Name.bare (name : Name) : Name := { name with span := default }

def Path.bare (path : Path) : Path := ⟨path.first.bare, path.more.map Name.bare, default⟩

def External.bare (external : External) : External := { external with span := default }

def CasePattern.renumbered (number : NodeId → NodeId) : CasePattern → CasePattern
  | default _ => .default Inhabited.default
  | pattern id => pattern (number id)

def Body.renumbered (number : NodeId → NodeId) : Body → Body
  | block id => block (number id)
  | value id => value (number id)

namespace Shape

/-- The same construct without its places, made of nodes with other numbers. -/
def renumbered (number : NodeId → NodeId) : Shape → Shape
  | identifier path => identifier path.bare
  | integer value => integer value
  | string value => string value
  | unary op operand => unary op (number operand)
  | binary op lhs rhs => binary op (number lhs) (number rhs)
  | paren inner => paren (number inner)
  | tuple elements => tuple (elements.map number)
  | array elements => array (elements.map number)
  | block statements => block (statements.map number)
  | call callee arguments => call (number callee) (number arguments)
  | index target indices => index (number target) (number indices)
  | member object path => member (number object) path.bare
  | moduleHeader path => moduleHeader path.bare
  | importStatement path => importStatement path.bare
  | doStatement value => doStatement (number value)
  | yieldStatement value => yieldStatement (number value)
  | returnStatement value => returnStatement (number value)
  | ifStatement condition thenBranch elseBranch =>
    ifStatement (number condition) (number thenBranch) (elseBranch.map number)
  | ifLet binding thenBranch elseBranch =>
    ifLet (number binding) (number thenBranch) (elseBranch.map number)
  | each binding body => each (number binding) (number body)
  | eachRange pattern range body => eachRange (number pattern) (number range) (number body)
  | matchStatement scrutinee cases => matchStatement (number scrutinee) (cases.map number)
  | matchCase pattern body => matchCase (pattern.renumbered number) (body.renumbered number)
  | retryCase scrutinee => retryCase (number scrutinee)
  | batchAttributes attributes body => batchAttributes (attributes.map number) (number body)
  | transparentList form statements => transparentList form (statements.map number)
  | yieldAttribute type => yieldAttribute (number type)
  | letVariable pattern value => letVariable (number pattern) (number value)
  | letFunction name signature body =>
    letFunction name.bare (number signature) (body.renumbered number)
  | letStruct pattern => letStruct (number pattern)
  | letEnum name external variants =>
    letEnum name.bare (external.map External.bare) (variants.map number)
  | restPattern binder => restPattern (number binder)
  | identifierPattern name type default =>
    identifierPattern name.bare (type.map number) (default.map number)
  | tuplePattern elements => tuplePattern (elements.map number)
  | enumPattern name arguments => enumPattern name.bare (number arguments)
  | literalPattern literal => literalPattern (number literal)
  | functionSignature arguments returnType attributes =>
    functionSignature (number arguments) (returnType.map number) (attributes.map number)

abbrev bare (shape : Shape) : Shape := shape.renumbered id

end Shape

theorem Name.bare_bare (name : Name) : name.bare.bare = name.bare := rfl

theorem Path.bare_bare (path : Path) : path.bare.bare = path.bare := by
  simp [bare, Name.bare_bare]

theorem External.bare_bare (external : External) : external.bare.bare = external.bare := rfl

theorem CasePattern.renumbered_renumbered (f g : NodeId → NodeId) (pattern : CasePattern) :
    (pattern.renumbered f).renumbered g = pattern.renumbered (g ∘ f) := by
  cases pattern <;> rfl

theorem Body.renumbered_renumbered (f g : NodeId → NodeId) (body : Body) :
    (body.renumbered f).renumbered g = body.renumbered (g ∘ f) := by
  cases body <;> rfl

theorem Shape.renumbered_renumbered (f g : NodeId → NodeId) (shape : Shape) :
    (shape.renumbered f).renumbered g = shape.renumbered (g ∘ f) := by
  cases shape <;>
    simp [renumbered, Name.bare_bare, Path.bare_bare, External.bare_bare, Function.comp_def,
      CasePattern.renumbered_renumbered, Body.renumbered_renumbered]

theorem Shape.children_renumbered (number : NodeId → NodeId) (shape : Shape) :
    (shape.renumbered number).children = shape.children.map number := by
  cases shape with
  | matchCase pattern body =>
    cases pattern <;> cases body <;>
      simp [renumbered, children, CasePattern.renumbered, Body.renumbered, Body.node]
  | letFunction name signature body =>
    cases body <;> simp [renumbered, children, Body.renumbered, Body.node]
  | ifStatement _ _ elseBranch => cases elseBranch <;> simp [renumbered, children]
  | ifLet _ _ elseBranch => cases elseBranch <;> simp [renumbered, children]
  | identifierPattern _ type default =>
    cases type <;> cases default <;> simp [renumbered, children]
  | functionSignature _ returnType _ => cases returnType <;> simp [renumbered, children]
  | _ => simp [renumbered, children]

/-- What stands at `id` in one arena is a copy of what stands at `id'` in another: the same
constructs with the same texts all the way down. -/
inductive Copy (nodes nodes' : Array Node) : NodeId → NodeId → Prop
  | node {id id' : NodeId} {node node' : Node} (h : nodes[id]? = some node)
      (h' : nodes'[id']? = some node')
      (hs : node.shape.renumbered (fun _ => 0) = node'.shape.renumbered (fun _ => 0))
      (hc : List.Forall₂ (Copy nodes nodes') node.children node'.children) :
      Copy nodes nodes' id id'

/-- One arena holds the first nodes of another, up to `count` of them, with other numbers. -/
def Holding (nodes nodes' : Array Node) (number : NodeId → NodeId) (count : Nat) : Prop :=
  ∀ (id : NodeId) (node' : Node), id < count → nodes'[id]? = some node' →
    ∃ node, nodes[number id]? = some node ∧ node.shape.bare = node'.shape.renumbered number

theorem Holding.mono {nodes nodes' more : Array Node} {number : NodeId → NodeId} {count : Nat}
    (h : Holding nodes nodes' number count)
    (hm : ∀ {id : NodeId} {node : Node}, nodes[id]? = some node → more[id]? = some node) :
    Holding more nodes' number count := fun id node' hid hn' => by
  obtain ⟨node, hn, hs⟩ := h id node' hid hn'
  exact ⟨node, hm hn, hs⟩

/-- Where nodes refer backward, what is held is a copy of what it was. -/
theorem Holding.copy {nodes nodes' : Array Node} {number : NodeId → NodeId} {count : Nat}
    (h : Holding nodes nodes' number count) (hc : count ≤ nodes'.size)
    (hb : ∀ (id : NodeId) (node : Node), nodes'[id]? = some node →
      ∀ child ∈ node.children, child < id)
    {id : NodeId} (hid : id < count) : Copy nodes nodes' (number id) id := by
  induction id using Nat.strong_induction_on with
  | h id ih =>
    obtain ⟨node', hn'⟩ : ∃ node', nodes'[id]? = some node' :=
      ⟨_, Array.getElem?_eq_getElem (Nat.lt_of_lt_of_le hid hc)⟩
    obtain ⟨node, hn, hs⟩ := h id node' hid hn'
    refine .node hn hn' ?_ ?_
    · have := congrArg (Shape.renumbered fun _ => 0) hs
      rwa [Shape.renumbered_renumbered, Shape.renumbered_renumbered] at this
    · have hchildren : node.children = node'.children.map number := by
        have := congrArg Shape.children hs
        rw [Shape.children_renumbered, Shape.children_renumbered, List.map_id] at this
        exact this
      rw [hchildren, List.forall₂_map_left_iff, List.forall₂_same]
      intro child hc
      have hlt := hb id node' hn' child hc
      exact ih child hlt (Nat.lt_trans hlt hid)

end Smaug
