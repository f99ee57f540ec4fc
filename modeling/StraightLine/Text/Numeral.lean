/-!
Numerals of integers: a sign and decimal digits of the ASCII kind.
-/

namespace StraightLine.Text

/-- A minus sign for a negative number. -/
def minus (negative : Bool) : List Char :=
  if negative then ['-'] else []

/-- The digits of an integer, behind a minus sign if it is negative. -/
def integerText (n : Int) : List Char :=
  minus (n < 0) ++ Nat.toDigits 10 n.natAbs

/-- Whether a text begins with a minus sign, and the text without the sign it begins with. -/
def splitSign : List Char → Bool × List Char
  | '-' :: rest => (true, rest)
  | '+' :: rest => (false, rest)
  | text => (false, text)

/-- The natural number that a list of digits denotes. -/
def digitsValue (digits : List Char) : Nat :=
  Nat.ofDigitChars 10 digits 0

@[simp]
theorem digitsValue_toDigits (n : Nat) : digitsValue (Nat.toDigits 10 n) = n :=
  Nat.ofDigitChars_ten_toDigits

/-- The integer that a text denotes, if it is one or more digits with at most one sign before them. -/
def readInteger (text : List Char) : Option Int :=
  let (negative, digits) := splitSign text
  if digits.isEmpty || !digits.all Char.isDigit then none
  else if negative then some (-(digitsValue digits : Int))
  else some (digitsValue digits)

end StraightLine.Text
