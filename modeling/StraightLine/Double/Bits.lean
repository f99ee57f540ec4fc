import StraightLine.Double.Round

/-!
Doubles as words of 64 bits: the sign, eleven bits of exponent, 52 bits of fraction. A word below the
sign bit grows with the magnitude, and infinity comes right after the largest finite number.
-/

namespace StraightLine.Double

-- Powers are the core library's, whatever else is imported.
attribute [local instance (high)] instPowNat

/-- The word of a magnitude without its sign. Above 2^53 units the exponent field exceeds the number
of steps that the spacing has grown by the hidden digit of the significand. -/
def magnitudeBits (units : Nat) : Nat :=
  (units.log2 - 52) * 2 ^ (52 : Nat) + units / spacing units

/-- The magnitude of a word without its sign. -/
def unitsOfBits (bits : Nat) : Nat :=
  let exponent := bits / 2 ^ (52 : Nat)
  let fraction := bits % 2 ^ (52 : Nat)
  if exponent = 0 then fraction else (2 ^ (52 : Nat) + fraction) * 2 ^ (exponent - 1)

/-- The double of a word, of which every number above the infinite ones is not a number. -/
def ofBits (word : UInt64) : Double :=
  let negative := 2 ^ (63 : Nat) ≤ word.toNat
  let bits := word.toNat % 2 ^ (63 : Nat)
  let infinite := magnitudeBits limit
  if infinite < bits then .nan
  else nearest negative (unitsOfBits bits) 1

/-- The word of a double, if it is a number. -/
def toBits? : Double → Option UInt64
  | .nan => none
  | .infinite negative => some (word negative limit)
  | .finite negative units _ => some (word negative units)
where
  word (negative : Bool) (units : Nat) : UInt64 :=
    UInt64.ofNat ((if negative then 2 ^ (63 : Nat) else 0) + magnitudeBits units)

end StraightLine.Double
