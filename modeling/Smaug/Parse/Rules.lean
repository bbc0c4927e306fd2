import Smaug.Parse.Statement

/-! # Running a rule

`Rule.body` says what each rule does with a meaning of the others at hand; `Rule.parse` ties the
knot.  How often rules call each other is bounded by the tokens left and the nesting allowed.
-/

namespace Smaug

open Parse

namespace Form

def body (run : Rule → Parse NodeId) : Form → Parse NodeId
  | statement => Parse.statement run
  | importStatement => Parse.importStatement
  | doStatement => Parse.doStatement run
  | returnStatement => Parse.returnStatement run
  | yieldStatement => Parse.yieldStatement run
  | ifStatement => Parse.ifStatement run
  | eachStatement => Parse.eachStatement run
  | matchStatement => Parse.matchStatement run
  | letStatement => Parse.letStatement run
  | typeExpression => Parse.typeExpression run
  | primary => Parse.primary
  | unary => Parse.unary run
  | grouping => Parse.grouping run
  | array => Parse.array run
  | block => Parse.block run
  | signature => Parse.signature run

end Form

def Suffix.body (run : Rule → Parse NodeId) (left : NodeId) (power : Power) :
    Suffix → Parse NodeId
  | binary => Parse.binary run left power
  | call => Parse.call run left
  | index => Parse.index run left
  | member => Parse.member left

def PatternForm.body (run : Rule → Parse NodeId) (allowDefault : Bool) :
    PatternForm → Parse NodeId
  | any => Parse.pattern run allowDefault
  | rest => Parse.restPattern run
  | named => Parse.namedPattern run allowDefault
  | identifier => Parse.identifierPattern run allowDefault
  | tuple => Parse.tuplePattern run
  | enum => Parse.enumPattern run
  | literal => Parse.literalPattern run

namespace Rule

/-- What a rule does, where `run` is the meaning of the rules it calls. -/
def body (run : Rule → Parse NodeId) : Rule → Parse NodeId
  | .form construct => construct.body run
  | .expression power => Parse.expression run power
  | .continuation left power => Parse.continuation run left power
  | .suffix operator left power => operator.body run left power
  | .tuple owner => Parse.tuple run owner
  | .pattern kind allowDefault => kind.body run allowDefault

/-- Runs a rule with calls nested up to `fuel` deep. -/
def runWith : Nat → Rule → Parse NodeId
  | 0, _ => stop .exhausted
  | fuel + 1, rule => rule.body (runWith fuel)

/-- A bound on how deep calls of rules can nest: between two calls that pass a token or enter a
level of nesting, only so many others fit. -/
def fuel (setup : Setup) (s : State) : Nat :=
  16 * (s.remaining + (setup.maxDepth - s.depth) + 1)

def parse (rule : Rule) : Parse NodeId := fun setup s => runWith (fuel setup s) rule setup s

end Rule
end Smaug
