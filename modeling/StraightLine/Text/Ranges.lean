/-!
Sets of characters written as ranges of code points, both ends included.
-/

namespace StraightLine.Text

/-- The code points from the first number to the second. -/
abbrev CodeRange := Nat × Nat

def inRange (r : CodeRange) (c : Char) : Bool :=
  r.1 ≤ c.toNat && c.toNat ≤ r.2

def inRanges (rs : List CodeRange) (c : Char) : Bool :=
  rs.any (inRange · c)

end StraightLine.Text
