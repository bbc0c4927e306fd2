import Smaug.Parse.Basic

/-! # Reading names and lists

The parts of rules that are not nodes themselves: names, paths, and the items of a list.
-/

namespace Smaug.Parse

def name : Parse Name := do
  let token ← look State.current
  if token.isName then
    let _ ← advance
    return ⟨token.value, token.kind == .builtIn, token.span⟩
  else refuse (← misplaced .identifier)

def path : Parse Path := do
  let first ← name
  let more ← collect do
    if ← eat .dot then return some (← name, true) else return none
  return ⟨first, more, ← look (·.spanFrom first.span.start)⟩

/-- Elements with commas between them, and after the last one if so wished, up to and with the
closing delimiter. -/
def delimited (close : Token.Kind) (element : Parse NodeId) : Parse (List NodeId) := do
  let elements ← collect do
    if ← isAt close then return none
    else
      let id ← element
      return some (id, ← eat .comma)
  let _ ← expectOr close (unexpected [.token .comma, .token close])
  return elements

/-- Items up to a closing brace or the end of the input. -/
def bracedItems (item : Parse NodeId) : Parse (List NodeId) :=
  collect do
    if ← look fun s => s.hasTokens && s.kind != .closeCurly then return some (← item, true)
    else return none

end Smaug.Parse
