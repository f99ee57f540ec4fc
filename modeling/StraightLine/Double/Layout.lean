import StraightLine.Double.Shortest
import StraightLine.Text.Numeral

/-!
Texts of doubles. The digits are those of the shortest decimal; a layout says where positional
notation ends and scientific notation begins, and how the special cases are spelled.
-/

namespace StraightLine.Double

/-- How doubles are laid out. Positional notation serves leading digits whose power of ten lies
between `least` and `greatest`. -/
structure Layout where
  least : Int
  greatest : Int
  /-- What follows the digits of an integral number in positional notation. -/
  integralEnd : List Char
  exponentMark : Char
  notANumber : String
  infinity : String

/-- Significant digits, without a zero at the end, and the power of ten of the first. -/
structure Digits where
  digits : List Char
  power : Int
  deriving DecidableEq

/-- The list without the zeros at its end. -/
def trimZeros (digits : List Char) : List Char :=
  (digits.reverse.dropWhile (· == '0')).reverse

/-- The digits of a decimal counted in units of 10^-1074. -/
def Digits.ofDecimal (decimal : Nat) : Digits :=
  let all := Nat.toDigits 10 decimal
  ⟨trimZeros all, (all.length : Int) - 1 - 1074⟩

/-- An exponent with its sign and at least two digits. -/
def exponentText (power : Int) : List Char :=
  let digits := Nat.toDigits 10 power.natAbs
  (if power < 0 then '-' else '+') :: (List.replicate (2 - digits.length) '0' ++ digits)

/-- The leading digit, the others behind a point, and the power of ten. -/
def scientific (layout : Layout) (d : Digits) : List Char :=
  let fraction := d.digits.drop 1
  d.digits.take 1 ++ (if fraction.isEmpty then [] else '.' :: fraction) ++
    layout.exponentMark :: exponentText d.power

/-- All digits in their places, with zeros up to the point on either side. -/
def positional (layout : Layout) (d : Digits) : List Char :=
  if d.power < 0 then
    '0' :: '.' :: (List.replicate (d.power.natAbs - 1) '0' ++ d.digits)
  else
    let whole := d.power.toNat + 1
    if d.digits.length ≤ whole then
      d.digits ++ List.replicate (whole - d.digits.length) '0' ++ layout.integralEnd
    else d.digits.take whole ++ '.' :: d.digits.drop whole

/-- The text of a finite magnitude. -/
def magnitudeText (layout : Layout) (units : Nat) : List Char :=
  if units = 0 then '0' :: layout.integralEnd
  else
    let d := Digits.ofDecimal (shortest units)
    if layout.least ≤ d.power ∧ d.power ≤ layout.greatest then positional layout d
    else scientific layout d

/-- The text of a double in a layout. -/
def write (layout : Layout) : Double → String
  | .nan => layout.notANumber
  | .infinite negative => String.ofList (Text.minus negative) ++ layout.infinity
  | .finite negative units _ => String.ofList (Text.minus negative ++ magnitudeText layout units)

end StraightLine.Double
