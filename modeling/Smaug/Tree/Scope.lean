import Smaug.Tree.Basic

/-! # Bindings of a scope

The names that declarations bind, as seen from the scope around them.  A block and a function keep
their names to themselves; the statements under batch attributes belong to the scope around them.
Every function here fails on a reference out of the arena.  Nesting in a tree is bounded by the
size of its arena, and `depth` stands for that bound.
-/

namespace Smaug.Tree

/-- The names that a pattern binds.  The name of an enum pattern is not one of them. -/
def patternNames (tree : Tree) : Nat → NodeId → Option (List String)
  | 0, _ => none
  | depth + 1, id => do
    match (← tree.get? id).shape with
    | .identifierPattern name .. => return [name.text]
    | .restPattern binder => patternNames tree depth binder
    | .tuplePattern elements => return (← elements.mapM (patternNames tree depth)).flatten
    | .enumPattern _ arguments => patternNames tree depth arguments
    | .functionSignature arguments .. => patternNames tree depth arguments
    | _ => return []

def statementNames (tree : Tree) : Nat → NodeId → Option (List String)
  | 0, _ => none
  | depth + 1, id => do
    match (← tree.get? id).shape with
    | .letVariable pattern _ => patternNames tree depth pattern
    | .letFunction name .. => return [name.text]
    | .letEnum name .. => return [name.text]
    | .letStruct pattern =>
      match (← tree.get? pattern).shape with
      | .enumPattern name _ => return [name.text]
      | _ => return []
    | .batchAttributes _ body => statementNames tree depth body
    | .transparentList _ statements =>
      return (← statements.mapM (statementNames tree depth)).flatten
    | _ => return []

def patternBindings? (tree : Tree) (pattern : NodeId) : Option (List String) :=
  tree.patternNames (tree.nodes.size + 1) pattern

/-- The names that a list of statements binds in its own scope, in source order. -/
def scopeBindings? (tree : Tree) (statements : List NodeId) : Option (List String) :=
  return (← statements.mapM (tree.statementNames (tree.nodes.size + 1))).flatten

def moduleBindings? (tree : Tree) : Option (List String) := tree.scopeBindings? tree.statements

end Smaug.Tree
