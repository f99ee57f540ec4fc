/-!
Binary floating-point numbers of double precision. A finite magnitude is counted in units of
2^-1074, the least one above zero, so that every magnitude is a natural number: those below 2^53 are
all present, and above that only the multiples of the spacing at their size.
-/

namespace StraightLine

-- Powers are the core library's, whatever else is imported.
attribute [local instance (high)] instPowNat

namespace Double

/-- The distance between neighbours at a magnitude: magnitudes keep 53 binary digits. -/
def spacing (units : Nat) : Nat :=
  2 ^ (units.log2 - 52)

/-- The units in the number one. -/
def one : Nat := 2 ^ (1074 : Nat)

/-- The units in 2^1024, the least power of two that is too large. -/
def limit : Nat := 2 ^ (2098 : Nat)

/-- The magnitudes of finite numbers. -/
def Representable (units : Nat) : Prop :=
  units < limit ∧ spacing units ∣ units

instance (units : Nat) : Decidable (Representable units) :=
  inferInstanceAs (Decidable (_ ∧ _))

theorem limit_pos : 0 < limit := by
  unfold limit
  apply Nat.pow_pos
  exact Nat.zero_lt_succ 1

theorem representable_zero : Representable 0 :=
  And.intro limit_pos (Nat.dvd_zero _)

end Double

/-- A double: a sign with a magnitude, which may be zero or infinite, or not a number. -/
inductive Double where
  | nan
  | infinite (negative : Bool)
  | finite (negative : Bool) (units : Nat) (representable : Double.Representable units)
  deriving DecidableEq

namespace Double

def zero (negative : Bool) : Double :=
  .finite negative 0 representable_zero

instance : Inhabited Double := ⟨zero false⟩

/-- The same magnitude with the other sign. -/
def negate : Double → Double
  | .nan => .nan
  | .infinite negative => .infinite !negative
  | .finite negative units h => .finite (!negative) units h

end Double

end StraightLine
