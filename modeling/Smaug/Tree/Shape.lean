import Smaug.Token.Kind
import Smaug.Tree.Name

/-! # Shapes of nodes

Statements, expressions and patterns are all nodes of one arena and refer to each other by their
places in it: any statement may be an operand, and a block is a list of statements.  The shape of
a node says which construct it is and what it is made of.
-/

namespace Smaug

/-- The place of a node in its arena, a number without a bound.  Where places are kept in 32 bits
they are the same for every source that can be read: there are no more nodes than bytes
(`Parsed.ofSource_paid`).  Only lists of tokens that give more than `2 ^ 32` nodes, which no source
is read to, are numbered here in another way. -/
abbrev NodeId := Nat

inductive UnaryOp where
  | negate | plus | not
deriving DecidableEq, Inhabited

def UnaryOp.symbol : UnaryOp → String
  | negate => "-" | plus => "+" | not => "!"

def UnaryOp.ofKind : Token.Kind → UnaryOp
  | .dash => negate
  | .plus => plus
  | _ => not

inductive BinaryOp where
  | multiply | divide | remainder | add | subtract | append | range
  | less | lessEquals | equals | notEquals | greaterEquals | greater
  | colon | within | logicalOr | logicalAnd
deriving DecidableEq, Inhabited

namespace BinaryOp

def kind : BinaryOp → Token.Kind
  | multiply => .star | divide => .slash | remainder => .percent | add => .plus
  | subtract => .dash | append => .tilde | range => .dotDot
  | less => .less | lessEquals => .lessEquals | equals => .equals | notEquals => .notEquals
  | greaterEquals => .greaterEquals | greater => .greater
  | colon => .colon | within => .inWord | logicalOr => .or | logicalAnd => .and

def all : List BinaryOp :=
  [multiply, divide, remainder, add, subtract, append, range, less, lessEquals, equals, notEquals,
   greaterEquals, greater, colon, within, logicalOr, logicalAnd]

def symbol (op : BinaryOp) : String := op.kind.describe

def ofKind? (kind : Token.Kind) : Option BinaryOp := all.find? (·.kind == kind)

end BinaryOp

/-- What a case of a `match` applies to. -/
inductive CasePattern where
  /-- The word `default`. -/
  | default (span : Span)
  | pattern (id : NodeId)
deriving DecidableEq, Inhabited

/-- What follows a case or the head of a function. -/
inductive Body where
  | block (id : NodeId)
  /-- An expression after `=`. -/
  | value (id : NodeId)
deriving DecidableEq, Inhabited

def Body.node : Body → NodeId
  | block id | value id => id

inductive ListForm where
  /-- After a colon, up to the end of the list around it. -/
  | colon
  /-- Between braces. -/
  | braced
deriving DecidableEq, Inhabited

/-- The word `external` on an enumeration, with the module it names. -/
structure External where
  module : Option String
  span : Span
deriving DecidableEq, Inhabited

/-- The constructs of the language. -/
inductive Shape where
  | identifier (path : Path)
  | integer (value : Nat)
  | string (value : String)
  | unary (op : UnaryOp) (operand : NodeId)
  | binary (op : BinaryOp) (lhs rhs : NodeId)
  | paren (inner : NodeId)
  | tuple (elements : List NodeId)
  | array (elements : List NodeId)
  | block (statements : List NodeId)
  | call (callee arguments : NodeId)
  | index (target indices : NodeId)
  | member (object : NodeId) (member : Path)
  | moduleHeader (path : Path)
  | importStatement (path : Path)
  | doStatement (value : NodeId)
  | yieldStatement (value : NodeId)
  | returnStatement (value : NodeId)
  | ifStatement (condition thenBranch : NodeId) (elseBranch : Option NodeId)
  | ifLet (binding thenBranch : NodeId) (elseBranch : Option NodeId)
  | each (binding body : NodeId)
  | eachRange (pattern range body : NodeId)
  | matchStatement (scrutinee : NodeId) (cases : List NodeId)
  | matchCase (pattern : CasePattern) (body : Body)
  | retryCase (scrutinee : NodeId)
  | batchAttributes (attributes : List NodeId) (body : NodeId)
  /-- Statements that belong to the scope around the list. -/
  | transparentList (form : ListForm) (statements : List NodeId)
  | yieldAttribute (type : NodeId)
  | letVariable (pattern value : NodeId)
  | letFunction (name : Name) (signature : NodeId) (body : Body)
  | letStruct (pattern : NodeId)
  | letEnum (name : Name) (external : Option External) (variants : List NodeId)
  | restPattern (binder : NodeId)
  | identifierPattern (name : Name) (type default : Option NodeId)
  | tuplePattern (elements : List NodeId)
  | enumPattern (name : Name) (arguments : NodeId)
  | literalPattern (literal : NodeId)
  | functionSignature (arguments : NodeId) (returnType : Option NodeId) (attributes : List NodeId)
deriving DecidableEq, Inhabited

namespace Shape

def name : Shape → String
  | identifier .. => "Identifier"
  | integer .. => "Integer"
  | string .. => "String"
  | unary .. => "Unary"
  | binary .. => "Binary"
  | paren .. => "Paren"
  | tuple .. => "Tuple"
  | array .. => "Array"
  | block .. => "Block"
  | call .. => "Call"
  | index .. => "Index"
  | member .. => "Member"
  | moduleHeader .. => "Module"
  | importStatement .. => "Import"
  | doStatement .. => "Do"
  | yieldStatement .. => "Yield"
  | returnStatement .. => "Return"
  | ifStatement .. => "If"
  | ifLet .. => "IfLet"
  | each .. => "Each"
  | eachRange .. => "EachRange"
  | matchStatement .. => "Match"
  | matchCase .. => "MatchCase"
  | retryCase .. => "RetryCase"
  | batchAttributes .. => "BatchAttributes"
  | transparentList .. => "TransparentList"
  | yieldAttribute .. => "YieldAttribute"
  | letVariable .. => "LetVariable"
  | letFunction .. => "LetFunction"
  | letStruct .. => "LetStruct"
  | letEnum .. => "LetEnum"
  | restPattern .. => "ConstructPattern"
  | identifierPattern .. => "IdentifierPattern"
  | tuplePattern .. => "TuplePattern"
  | enumPattern .. => "EnumPattern"
  | literalPattern .. => "LiteralPattern"
  | functionSignature .. => "FunctionSignature"

/-- The nodes a construct is made of, in source order. -/
def children : Shape → List NodeId
  | identifier _ | integer _ | string _ | moduleHeader _ | importStatement _ => []
  | unary _ operand => [operand]
  | binary _ lhs rhs => [lhs, rhs]
  | paren inner => [inner]
  | tuple elements | array elements | tuplePattern elements => elements
  | block statements | transparentList _ statements => statements
  | call callee arguments => [callee, arguments]
  | index target indices => [target, indices]
  | member object _ => [object]
  | doStatement value | yieldStatement value | returnStatement value => [value]
  | ifStatement condition thenBranch elseBranch => condition :: thenBranch :: elseBranch.toList
  | ifLet binding thenBranch elseBranch => binding :: thenBranch :: elseBranch.toList
  | each binding body => [binding, body]
  | eachRange pattern range body => [pattern, range, body]
  | matchStatement scrutinee cases => scrutinee :: cases
  | matchCase (.pattern pattern) body => [pattern, body.node]
  | matchCase (.default _) body => [body.node]
  | retryCase scrutinee => [scrutinee]
  | batchAttributes attributes body => attributes ++ [body]
  | yieldAttribute type => [type]
  | letVariable pattern value => [pattern, value]
  | letFunction _ signature body => [signature, body.node]
  | letStruct pattern => [pattern]
  | letEnum _ _ variants => variants
  | restPattern binder => [binder]
  | identifierPattern _ type default => type.toList ++ default.toList
  | enumPattern _ arguments => [arguments]
  | literalPattern literal => [literal]
  | functionSignature arguments returnType attributes =>
    arguments :: (returnType.toList ++ attributes)

/-- Whether a construct is a pattern or the signature of a function. -/
def isPattern : Shape → Bool
  | restPattern .. | identifierPattern .. | tuplePattern .. | enumPattern .. | literalPattern ..
  | functionSignature .. => true
  | _ => false

/-- Whether a construct keeps the names bound in it to itself. -/
def opensScope : Shape → Bool
  | block .. | letFunction .. => true
  | _ => false

end Shape

structure Node where
  shape : Shape
  span : Span
deriving DecidableEq, Inhabited

def Node.children (node : Node) : List NodeId := node.shape.children

end Smaug
