import StraightLine.Text.Printable

/-!
Quoted texts, as messages show them. The delimiter is a single quote, or a double quote where that
saves an escape; a backslash escapes the delimiter, itself, and what is not printable.
-/

namespace StraightLine.Text

/-- A single quote, unless the text holds one and no double quote. -/
def delimiter (text : List Char) : Char :=
  if text.contains '\'' && !text.contains '"' then '"' else '\''

/-- At least `width` hexadecimal digits, in lower case. -/
def hexDigits (width n : Nat) : List Char :=
  let digits := Nat.toDigits 16 n
  List.replicate (width - digits.length) '0' ++ digits

/-- The shortest of the three numeric escapes that has room for the code point. -/
def escapeByCode (c : Char) : List Char :=
  if c.toNat < 0x100 then '\\' :: 'x' :: hexDigits 2 c.toNat
  else if c.toNat < 0x10000 then '\\' :: 'u' :: hexDigits 4 c.toNat
  else '\\' :: 'U' :: hexDigits 8 c.toNat

/-- One character of a text quoted with the given delimiter. -/
def escape (quote c : Char) : List Char :=
  if c = quote ∨ c = '\\' then ['\\', c]
  else if c = '\n' then ['\\', 'n']
  else if c = '\r' then ['\\', 'r']
  else if c = '\t' then ['\\', 't']
  else if isPrintable c then [c]
  else escapeByCode c

def quotedChars (text : List Char) : List Char :=
  let quote := delimiter text
  quote :: (text.flatMap (escape quote) ++ [quote])

/-- The text between delimiters, on one line and printable throughout. -/
def quoted (text : String) : String :=
  String.ofList (quotedChars text.toList)

end StraightLine.Text
