import Smaug.Token.Basic
import Smaug.Tree.Shape

/-! # Trees

A tree is an arena of nodes with the places of its module header and its top-level statements, and
the trivia of the source beside it.  A caller may assemble a tree from any parts, so a reference
may lead out of the arena; what follows such a reference answers `none`.
-/

namespace Smaug

/-- The nodes of a source, what stands at its top level, and its trivia. -/
structure Tree where
  file : String
  nodes : Array Node := #[]
  header : Option NodeId := none
  statements : List NodeId := []
  trivia : Array Trivia := #[]
deriving DecidableEq, Inhabited

namespace Tree

def get? (tree : Tree) (id : NodeId) : Option Node := tree.nodes[id]?

def modulePath? (tree : Tree) : Option (Option Path) :=
  match tree.header with
  | none => some none
  | some id => (tree.get? id).map fun node =>
    match node.shape with
    | .moduleHeader path => some path
    | _ => none

/-- Visits the nodes on a stack and everything below them, a node before what it is made of and
that in source order; `out` holds what was visited, in reverse.  Fails on a reference out of the
arena, and after `fuel` visits. -/
def visit (tree : Tree) : Nat → List NodeId → List NodeId → Option (List NodeId)
  | _, out, [] => some out.reverse
  | 0, _, _ :: _ => none
  | fuel + 1, out, id :: stack => do
    let node ← tree.get? id
    visit tree fuel (id :: out) (node.children ++ stack)

/-- A node and everything below it, each node before what it is made of.  In a tree no node is
below two others, so no more nodes are visited than the arena holds. -/
def descendants? (tree : Tree) (id : NodeId) : Option (List NodeId) :=
  tree.visit tree.nodes.size [] [id]

def comments (tree : Tree) : List Trivia := tree.trivia.toList.filter Trivia.isComment

/-- One line on a node: its construct, its place in arena and source, and what it is made of. -/
def debugLine? (tree : Tree) (id : NodeId) : Option String := do
  let node ← tree.get? id
  let children := ", ".intercalate (node.children.map toString)
  return s!"{node.shape.name} #{id} @{node.span.start}..{node.span.stop} children=[{children}]\n"

end Tree
end Smaug
