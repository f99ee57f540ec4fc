import StraightLine.Fault

/-!
The spans of trees: the spots of the first token and of the last. The two empty trees have none, nor
have the trees that end in one of them.
-/

namespace StraightLine.Tree

/-- The spot of the first token. -/
def firstSpot : Tree → Except Fault Int
  | .name n => .ok n.spot
  | .literal _ _ spot => .ok spot
  | .identifier n => .ok n.spot
  | .parentheses inner => inner.firstSpot
  | .binary lhs _ _ => lhs.firstSpot
  | .call callee _ => .ok callee.spot
  | .declaration keyword _ _ => .ok keyword.spot
  | .program [] => .ok 0
  | .program (first :: _) => first.firstSpot
  | .phrase => .error (.withoutSpan .phrase)
  | .expression => .error (.withoutSpan .expression)

mutual

/-- The spot of the last token. -/
def lastSpot : Tree → Except Fault Int
  | .name n => .ok n.spot
  | .literal _ _ spot => .ok spot
  | .identifier n => .ok n.spot
  | .parentheses inner => inner.lastSpot
  | .binary _ _ rhs => rhs.lastSpot
  | .call callee args => lastSpotOfLast callee.spot args
  | .declaration _ _ initial => initial.lastSpot
  | .program statements => lastSpotOfLast 0 statements
  | .phrase => .error (.withoutSpan .phrase)
  | .expression => .error (.withoutSpan .expression)

/-- The spot of the last token of the last tree, and of no trees the given spot. -/
def lastSpotOfLast (spot : Int) : List Tree → Except Fault Int
  | [] => .ok spot
  | [t] => t.lastSpot
  | _ :: t :: ts => lastSpotOfLast spot (t :: ts)

end

/-- The spots of the first token and the last; where both are missing, the first one is missed. -/
def span (t : Tree) : Except Fault (Int × Int) := do
  let first ← t.firstSpot
  let last ← t.lastSpot
  return (first, last)

end StraightLine.Tree
