import Smaug.Grammar.Rule

/-! # Dispatch tables

Which rule a token calls for, depending on what is being read.  The language is given by
`Table.standard`; other tables give other languages over the same rules.
-/

namespace Smaug

/-- What each kind of token calls for at the start of a statement, of an operand, after an operand
and at the start of a pattern. -/
structure Table where
  statement : Token.Kind → Option Form
  operand : Token.Kind → Option Form
  suffix : Token.Kind → Option (Power × Suffix)
  pattern : Token.Kind → Option PatternForm

namespace Table

def empty : Table where
  statement _ := none
  operand _ := none
  suffix _ := none
  pattern _ := none

def statements : Token.Kind → Option Form
  | .importWord => some .importStatement
  | .letWord => some .letStatement
  | .doWord => some .doStatement
  | .yieldWord => some .yieldStatement
  | .returnWord => some .returnStatement
  | .ifWord => some .ifStatement
  | .eachWord => some .eachStatement
  | .matchWord => some .matchStatement
  | _ => none

def operands : Token.Kind → Option Form
  | .integer | .string | .identifier | .builtIn => some .primary
  | .dash | .plus | .not => some .unary
  | .openParen => some .grouping
  | .openBracket => some .array
  | .openCurly => some .block
  | _ => none

def suffixes : Token.Kind → Option (Power × Suffix)
  | .and => some (.logicalAnd, .binary)
  | .or => some (.logicalOr, .binary)
  | .less | .lessEquals | .equals | .notEquals | .greaterEquals | .greater | .colon | .inWord =>
    some (.compare, .binary)
  | .dotDot => some (.range, .binary)
  | .tilde => some (.append, .binary)
  | .plus | .dash => some (.add, .binary)
  | .star | .slash | .percent => some (.multiply, .binary)
  | .openParen => some (.suffix, .call)
  | .openBracket => some (.suffix, .index)
  | .dot => some (.member, .member)
  | _ => none

def patterns : Token.Kind → Option PatternForm
  | .ellipsis => some .rest
  | .openParen => some .tuple
  | .identifier | .builtIn => some .named
  | .string | .integer => some .literal
  | _ => none

def standard : Table := ⟨statements, operands, suffixes, patterns⟩

def withoutPatterns : Table := { standard with pattern := empty.pattern }

def onlyPatterns : Table := { empty with pattern := patterns }

def put (map : Token.Kind → Option α) (kind : Token.Kind) (value : α) : Token.Kind → Option α :=
  fun k => if k = kind then some value else map k

def putStatement (table : Table) (kind : Token.Kind) (form : Form) : Table :=
  { table with statement := put table.statement kind form }

def putOperand (table : Table) (kind : Token.Kind) (form : Form) : Table :=
  { table with operand := put table.operand kind form }

def putSuffix (table : Table) (kind : Token.Kind) (power : Power) (suffix : Suffix) : Table :=
  { table with suffix := put table.suffix kind (power, suffix) }

def putPattern (table : Table) (kind : Token.Kind) (form : PatternForm) : Table :=
  { table with pattern := put table.pattern kind form }

end Table
end Smaug
