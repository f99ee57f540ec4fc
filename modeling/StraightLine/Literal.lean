import StraightLine.Double.Round
import StraightLine.Text.Numeral

/-!
What the texts of literals denote, if they are well formed.
-/

namespace StraightLine.Literal

-- Powers are the core library's, whatever else is imported.
attribute [local instance (high)] instPowNat

/-- The text between the first character and the last, which delimit it. -/
def text? (written : String) : Option String :=
  let chars := written.toList
  if chars.length < 2 then none else some (String.ofList (chars.drop 1).dropLast)

/-- The integer that a text denotes, of any size. Texts of too many digits denote one too, but are not
read. -/
def integer? (written : String) : Option Int :=
  Text.readInteger written.toList

/-- The number of digits up to which the text of an integer is read. -/
def digitLimit : Nat := 4300

/-- The digits of the text of an integer, those of zeros in front included. -/
def digitCount (written : String) : Nat :=
  (Text.splitSign written.toList).2.length

/-- A decimal numeral: its sign, and its digits before and behind the point. -/
structure Decimal where
  negative : Bool
  whole : List Char
  fraction : List Char
  deriving DecidableEq

/-- Reads an optional sign and digits with one point before, among or behind them. -/
def parts? (written : List Char) : Option Decimal :=
  let (negative, body) := Text.splitSign written
  let whole := body.takeWhile Char.isDigit
  match body.dropWhile Char.isDigit with
  | '.' :: fraction =>
    if fraction.all Char.isDigit && !(whole.isEmpty && fraction.isEmpty) then
      some ⟨negative, whole, fraction⟩
    else none
  | _ => none

/-- The double nearest to a decimal numeral, with the numeral's sign even for zero. -/
def Decimal.toDouble (d : Decimal) : Double :=
  .nearest d.negative (Text.digitsValue (d.whole ++ d.fraction) * Double.one)
    (10 ^ d.fraction.length)

/-- The double of a text. -/
def decimal? (written : String) : Option Double :=
  (parts? written.toList).map Decimal.toDouble

end StraightLine.Literal
