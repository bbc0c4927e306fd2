import Smaug.Grammar.Power
import Smaug.Tree.Shape

/-! # Rules

The rules of the grammar that yield a node.  They call each other only by these names, so what a
rule does can be said with any meaning of the others at hand.
-/

namespace Smaug

/-- The rules that need nothing but the current token to start: statements, operands and the other
constructs that begin with themselves. -/
inductive Form where
  | statement
  | importStatement | doStatement | returnStatement | yieldStatement | ifStatement
  | eachStatement | matchStatement | letStatement
  | typeExpression | primary | unary | grouping | array | block | signature
deriving DecidableEq, Inhabited

/-- The rules that take an expression to their left further. -/
inductive Suffix where
  | binary | call | index | member
deriving DecidableEq, Inhabited

inductive PatternForm where
  /-- Whichever of the others the current token calls for. -/
  | any
  | rest
  /-- An enum pattern if a parenthesis follows the name, and an identifier pattern otherwise. -/
  | named
  | identifier | tuple | enum | literal
deriving DecidableEq, Inhabited

/-- A rule with what it needs to know. -/
inductive Rule where
  | form (form : Form)
  /-- An expression whose operators all bind more tightly than `power`. -/
  | expression (power : Power)
  /-- The rest of such an expression after the operand `left`. -/
  | continuation (left : NodeId) (power : Power)
  /-- What stands right of `left` after an operator that binds with `power`. -/
  | suffix (suffix : Suffix) (left : NodeId) (power : Power)
  /-- Expressions in parentheses, as part of a construct that messages name. -/
  | tuple (construct : String)
  /-- A pattern, where an identifier may or may not carry a default value. -/
  | pattern (form : PatternForm) (allowDefault : Bool)
deriving DecidableEq, Inhabited

end Smaug
