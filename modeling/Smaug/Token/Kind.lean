/-! # Kinds of tokens

A kind of token has a name, by which it is listed, and a description, by which messages speak of
it.  The description of a reserved word or a punctuation mark is its spelling.
-/

namespace Smaug.Token

/-- What a token is, apart from its value and place. -/
inductive Kind where
  | eof | integer | string | identifier | builtIn
  | openBracket | closeBracket | openCurly | closeCurly | openParen | closeParen
  | assignment | equals | not | notEquals
  | less | lessEquals | greater | greaterEquals
  | or | and
  | dot | dotDot | ellipsis | colon | comma
  | plus | dash | slash | star | percent | tilde
  | importWord | letWord | structWord | enumWord | unionWord | classWord | doWord | yieldWord
  | returnWord | ifWord | inWord | eachWord | matchWord | caseWord | externalWord
deriving DecidableEq, Inhabited

namespace Kind

/-- The reserved words.  They never name anything. -/
def reserved : List Kind :=
  [importWord, letWord, structWord, enumWord, unionWord, classWord, doWord, yieldWord, returnWord,
   ifWord, inWord, eachWord, matchWord, caseWord, externalWord]

/-- The punctuation marks, each one before those it begins with. -/
def punctuation : List Kind :=
  [ellipsis, dotDot, dot, openBracket, closeBracket, openCurly, closeCurly, openParen, closeParen,
   equals, notEquals, lessEquals, greaterEquals, less, greater, assignment, not, or, and, colon,
   comma, plus, dash, star, slash, percent, tilde]

/-- The kinds that are known by what they stand for and not by their spelling. -/
def valued : List Kind := [eof, integer, string, identifier, builtIn]

def all : List Kind := valued ++ punctuation ++ reserved

def isReserved (kind : Kind) : Bool := reserved.contains kind

def describe : Kind → String
  | eof => "end of input" | integer => "integer" | string => "string"
  | identifier => "identifier" | builtIn => "built-in type"
  | openBracket => "[" | closeBracket => "]" | openCurly => "\x7b" | closeCurly => "\x7d"
  | openParen => "(" | closeParen => ")"
  | assignment => "=" | equals => "==" | not => "!" | notEquals => "!="
  | less => "<" | lessEquals => "<=" | greater => ">" | greaterEquals => ">="
  | or => "||" | and => "&&"
  | dot => "." | dotDot => ".." | ellipsis => "..." | colon => ":" | comma => ","
  | plus => "+" | dash => "-" | slash => "/" | star => "*" | percent => "%" | tilde => "~"
  | importWord => "import" | letWord => "let" | structWord => "struct" | enumWord => "enum"
  | unionWord => "union" | classWord => "class" | doWord => "do" | yieldWord => "yield"
  | returnWord => "return" | ifWord => "if" | inWord => "in" | eachWord => "each"
  | matchWord => "match" | caseWord => "case" | externalWord => "external"

def name : Kind → String
  | eof => "EOF" | integer => "Integer" | string => "String"
  | identifier => "Identifier" | builtIn => "BuiltIn"
  | openBracket => "OpenBracket" | closeBracket => "CloseBracket"
  | openCurly => "OpenCurly" | closeCurly => "CloseCurly"
  | openParen => "OpenParen" | closeParen => "CloseParen"
  | assignment => "Assignment" | equals => "Equals" | not => "Not" | notEquals => "NotEquals"
  | less => "Less" | lessEquals => "LessEquals"
  | greater => "Greater" | greaterEquals => "GreaterEquals"
  | or => "Or" | and => "And"
  | dot => "Dot" | dotDot => "DotDot" | ellipsis => "Ellipsis" | colon => "Colon"
  | comma => "Comma"
  | plus => "Plus" | dash => "Dash" | slash => "Slash" | star => "Star"
  | percent => "Percent" | tilde => "Tilde"
  | importWord => "Import" | letWord => "Let" | structWord => "Struct" | enumWord => "Enum"
  | unionWord => "Union" | classWord => "Class" | doWord => "Do" | yieldWord => "Yield"
  | returnWord => "Return" | ifWord => "If" | inWord => "In" | eachWord => "Each"
  | matchWord => "Match" | caseWord => "Case" | externalWord => "External"

/-- The kind of a name: reserved words stand for themselves, the built-in types are told apart
from other identifiers. -/
def ofWord (word : String) : Kind :=
  match reserved.find? (·.describe == word) with
  | some kind => kind
  | none =>
    if ["byte", "int", "long", "float", "char", "wchar", "dchar"].contains word then builtIn
    else identifier

end Kind
end Smaug.Token
