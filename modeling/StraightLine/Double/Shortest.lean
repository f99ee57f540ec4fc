import StraightLine.Double.Round

/-!
Shortest decimals. Of all decimals that round to a given magnitude the shortest has the fewest
significant digits, and among those it is the nearest; of two as near, the one whose last digit is
even. Decimals are counted in units of 10^-1074, which count every finite magnitude exactly.
-/

namespace StraightLine.Double

-- Powers are the core library's, whatever else is imported.
attribute [local instance (high)] instPowNat

/-- Units of 10^-1074 in one unit of 2^-1074. -/
def decimalUnits : Nat := 5 ^ (1074 : Nat)

/-- Whether a decimal rounds to the magnitude. -/
def ReadsBack (units decimal : Nat) : Prop :=
  roundUnits decimal decimalUnits = units

instance (units decimal : Nat) : Decidable (ReadsBack units decimal) :=
  inferInstanceAs (Decidable (_ = _))

/-- The better of the two multiples of `grid` around the exact decimal, if one of them reads back. -/
def bestOnGrid (units exact grid : Nat) : Option Nat :=
  let steps := exact / grid
  let below := steps * grid
  let above := below + grid
  if ReadsBack units below then
    if ReadsBack units above ∧
        (above - exact < exact - below ∨ above - exact = exact - below ∧ steps % 2 = 1) then
      some above
    else some below
  else if ReadsBack units above then some above
  else none

/-- The best decimal that ends in `dropped` zeros or fewer. -/
def shortestFrom (units exact : Nat) : Nat → Nat
  | 0 => exact
  | dropped + 1 => (bestOnGrid units exact (10 ^ (dropped + 1))).getD (shortestFrom units exact dropped)

/-- The shortest decimal of a magnitude. -/
def shortest (units : Nat) : Nat :=
  let exact := units * decimalUnits
  shortestFrom units exact ((Nat.toDigits 10 exact).length - 1)

end StraightLine.Double
