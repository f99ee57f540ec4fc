import StraightLine.Double.Arithmetic
import StraightLine.Fault
import StraightLine.Value
import StraightLine.Word

/-!
Operations on values. The operands are first brought to a common kind: text beats decimal and decimal
beats integer. One operand of the stronger kind is enough for text; numbers need numbers on both sides.
-/

namespace StraightLine

/-- Two operands of one kind, or two that have no kind in common. -/
inductive Operands where
  | texts (a b : String)
  | integers (a b : Int)
  | decimals (a b : Double)
  | unrelated
  deriving DecidableEq

/-- Brings two values to the stronger of their kinds. -/
def Operands.of : Value → Value → Operands
  | .text a, v => .texts a v.written
  | v, .text b => .texts v.written b
  | .integer a, .integer b => .integers a b
  | .integer a, .decimal y => .decimals (.ofInt a) y
  | .decimal x, .integer b => .decimals x (.ofInt b)
  | .decimal x, .decimal y => .decimals x y
  | _, _ => .unrelated

namespace Glyph

/-- Words are added, subtracted, multiplied and divided as integers and wrapped; there is no quotient by
zero. -/
def onIntegers? (a b : Int) : Glyph → Option Int
  | .times => some (Word.wrap (a * b))
  | .over => if b = 0 then none else some (Word.wrap (Word.quotient a b))
  | .plus => some (Word.wrap (a + b))
  | .minus => some (Word.wrap (a - b))

def onDecimals (x y : Double) : Glyph → Double
  | .times => x.mul y
  | .over => x.quotient y
  | .plus => x.add y
  | .minus => x.sub y

end Glyph

/-- The value of an operation. Texts can only be joined. Where an operation does not exist the
operator is to blame; for a division by zero nobody is as yet. -/
def operate (op : Name) (lhs rhs : Value) : Except Failure Value :=
  match Operands.of lhs rhs, Glyph.ofText? op.text with
  | .texts a b, some .plus => .ok (.text (a ++ b))
  | .texts _ _, _ => .error (.error ⟨.notOnText op.text, some (.name op)⟩)
  | .unrelated, _ => .error (.error ⟨.notOnKinds op.text, some (.name op)⟩)
  | .integers a b, some glyph =>
    match glyph.onIntegers? a b with
    | some n => .ok (.integer n)
    | none => .error (.ofCause .divisionByZero)
  | .decimals x y, some glyph => .ok (.decimal (glyph.onDecimals x y))
  | .integers _ _, none => .error (.fault (.unknownGlyph op.text))
  | .decimals _ _, none => .error (.fault (.unknownGlyph op.text))

end StraightLine
