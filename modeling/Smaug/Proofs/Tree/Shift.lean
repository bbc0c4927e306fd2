import Mathlib
import Smaug.Proofs.Tree.PostOrder
import Smaug.Token.Basic

/-! # Shifted constructs

The same construct at another place: the nodes it is made of lie further on in their arena, and the
texts it is written in lie further on in their source.
-/

namespace Smaug

@[reducible] def Span.shift (offset : Nat) (span : Span) : Span :=
  ⟨span.start + offset, span.stop + offset⟩

@[reducible] def Token.shift (offset : Nat) (token : Token) : Token :=
  { token with span := token.span.shift offset }

@[reducible] def Name.shift (offset : Nat) (name : Name) : Name :=
  { name with span := name.span.shift offset }

@[reducible] def Path.shift (offset : Nat) (path : Path) : Path :=
  ⟨path.first.shift offset, path.more.map (Name.shift offset), path.span.shift offset⟩

@[reducible] def External.shift (offset : Nat) (external : External) : External :=
  { external with span := external.span.shift offset }

@[reducible] def CasePattern.shift (base offset : Nat) : CasePattern → CasePattern
  | default span => default (span.shift offset)
  | pattern id => pattern (id + base)

@[reducible] def Body.shift (base : Nat) : Body → Body
  | block id => block (id + base)
  | value id => value (id + base)

@[reducible] def Shape.shift (base offset : Nat) : Shape → Shape
  | identifier path => identifier (path.shift offset)
  | integer value => integer value
  | string value => string value
  | unary op operand => unary op (operand + base)
  | binary op lhs rhs => binary op (lhs + base) (rhs + base)
  | paren inner => paren (inner + base)
  | tuple elements => tuple (elements.map (· + base))
  | array elements => array (elements.map (· + base))
  | block statements => block (statements.map (· + base))
  | call callee arguments => call (callee + base) (arguments + base)
  | index target indices => index (target + base) (indices + base)
  | member object path => member (object + base) (path.shift offset)
  | moduleHeader path => moduleHeader (path.shift offset)
  | importStatement path => importStatement (path.shift offset)
  | doStatement value => doStatement (value + base)
  | yieldStatement value => yieldStatement (value + base)
  | returnStatement value => returnStatement (value + base)
  | ifStatement condition thenBranch elseBranch =>
    ifStatement (condition + base) (thenBranch + base) (elseBranch.map (· + base))
  | ifLet binding thenBranch elseBranch =>
    ifLet (binding + base) (thenBranch + base) (elseBranch.map (· + base))
  | each binding body => each (binding + base) (body + base)
  | eachRange pattern range body => eachRange (pattern + base) (range + base) (body + base)
  | matchStatement scrutinee cases => matchStatement (scrutinee + base) (cases.map (· + base))
  | matchCase pattern body => matchCase (pattern.shift base offset) (body.shift base)
  | retryCase scrutinee => retryCase (scrutinee + base)
  | batchAttributes attributes body => batchAttributes (attributes.map (· + base)) (body + base)
  | transparentList form statements => transparentList form (statements.map (· + base))
  | yieldAttribute type => yieldAttribute (type + base)
  | letVariable pattern value => letVariable (pattern + base) (value + base)
  | letFunction name signature body =>
    letFunction (name.shift offset) (signature + base) (body.shift base)
  | letStruct pattern => letStruct (pattern + base)
  | letEnum name external variants =>
    letEnum (name.shift offset) (external.map (External.shift offset)) (variants.map (· + base))
  | restPattern binder => restPattern (binder + base)
  | identifierPattern name type default =>
    identifierPattern (name.shift offset) (type.map (· + base)) (default.map (· + base))
  | tuplePattern elements => tuplePattern (elements.map (· + base))
  | enumPattern name arguments => enumPattern (name.shift offset) (arguments + base)
  | literalPattern literal => literalPattern (literal + base)
  | functionSignature arguments returnType attributes =>
    functionSignature (arguments + base) (returnType.map (· + base)) (attributes.map (· + base))

/-- The same node, `base` nodes and `offset` bytes further on. -/
@[reducible] def Node.shift (base offset : Nat) (node : Node) : Node :=
  ⟨node.shape.shift base offset, node.span.shift offset⟩

theorem Node.children_shift (base offset : Nat) (node : Node) :
    (node.shift base offset).children = node.children.map (· + base) := by
  obtain ⟨shape, span⟩ := node
  cases shape with
  | matchCase pattern body =>
    cases pattern <;> cases body <;> simp [Node.children, Shape.children, Body.node]
  | letFunction name signature body =>
    cases body <;> simp [Node.children, Shape.children, Body.node]
  | ifStatement _ _ elseBranch =>
    cases elseBranch <;> simp [Node.children, Shape.children]
  | ifLet _ _ elseBranch => cases elseBranch <;> simp [Node.children, Shape.children]
  | identifierPattern _ type default =>
    cases type <;> cases default <;> simp [Node.children, Shape.children]
  | functionSignature _ returnType _ =>
    cases returnType <;> simp [Node.children, Shape.children]
  | _ => simp [Node.children, Shape.children]

theorem flatMapM_map {f : α → Option (List β)} {g : γ → Option (List δ)} {a : α → γ} {b : β → δ}
    (h : ∀ x ys, f x = some ys → g (a x) = some (ys.map b)) {xs : List α} {ys : List β}
    (hf : xs.flatMapM f = some ys) : (xs.map a).flatMapM g = some (ys.map b) := by
  induction xs generalizing ys with
  | nil =>
    obtain rfl : [] = ys := Option.some.inj hf
    rfl
  | cons x xs ih =>
    simp only [List.map_cons, List.flatMapM_cons, Option.bind_eq_bind, Option.bind_eq_some_iff]
      at hf ⊢
    obtain ⟨as, hx, bs, hb, hy⟩ := hf
    obtain rfl : as ++ bs = ys := Option.some.inj hy
    exact ⟨as.map b, h x as hx, bs.map b, ih hb, by rw [List.map_append]; rfl⟩

/-- What is below a node that comes from another arena comes from there too. -/
theorem postOrder?_shift {nodes more : Array Node} {base offset : Nat}
    (h : ∀ {id : NodeId} {node : Node}, nodes[id]? = some node →
      more[id + base]? = some (node.shift base offset))
    {depth : Nat} {id : NodeId} {ids : List NodeId} (hi : postOrder? nodes depth id = some ids) :
    postOrder? more depth (id + base) = some (ids.map (· + base)) := by
  induction depth generalizing id ids with
  | zero => cases hi
  | succ depth ih =>
    obtain ⟨node, below, hn, hb, rfl⟩ := postOrder?_succ.1 hi
    refine postOrder?_succ.2 ⟨_, below.map (· + base), h hn, ?_, by rw [List.map_append]; rfl⟩
    rw [Node.children_shift]
    exact flatMapM_map (fun _ _ => ih) hb

end Smaug
