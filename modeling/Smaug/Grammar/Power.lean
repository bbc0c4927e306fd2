/-! # Binding powers

How tightly an operator holds its operands.  Some tiers have no operator; `logicalOr` is tighter
than `logicalAnd`.
-/

namespace Smaug

/-- The tiers of operators, loosest first. -/
inductive Power where
  | lowest | logicalAnd | logicalOr | inclusiveOr | exclusiveOr | bitwiseAnd | compare | range
  | append | shift | add | multiply | exponent | unary | suffix | member | primary
deriving DecidableEq, Inhabited

namespace Power

/-- The place of a tier, counted from the loosest. -/
def rank : Power → Nat
  | lowest => 0 | logicalAnd => 1 | logicalOr => 2 | inclusiveOr => 3 | exclusiveOr => 4
  | bitwiseAnd => 5 | compare => 6 | range => 7 | append => 8 | shift => 9 | add => 10
  | multiply => 11 | exponent => 12 | unary => 13 | suffix => 14 | member => 15 | primary => 16

def tighter (a b : Power) : Bool := b.rank < a.rank

end Power
end Smaug
