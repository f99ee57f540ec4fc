import StraightLine.Double.Round

/-!
The four operations on doubles and the double of an integer. Each takes the exact result and rounds
it once; none fails, for a division by zero is infinite or not a number. Quotients by zero are made
without division, from the two signs.
-/

namespace StraightLine.Double

/-- The units of a magnitude with its sign. -/
def signed (negative : Bool) (units : Nat) : Int :=
  if negative then -(units : Int) else units

/-- The double nearest to a whole number of units, other than zero. -/
def ofUnits (units : Int) : Double :=
  nearest (units < 0) units.natAbs 1

/-- The double nearest to an integer. Operands are words, which are all below the infinite doubles. -/
def ofInt (n : Int) : Double :=
  nearest (n < 0) (n.natAbs * one) 1

/-- A sum that cancels is a positive zero, unless both terms are negative. -/
def add : Double → Double → Double
  | .nan, _ => .nan
  | _, .nan => .nan
  | .infinite s, .infinite t => if s = t then .infinite s else .nan
  | .infinite s, .finite .. => .infinite s
  | .finite .., .infinite t => .infinite t
  | .finite s a _, .finite t b _ =>
    let sum := signed s a + signed t b
    if sum = 0 then zero (s && t) else ofUnits sum

def sub (x y : Double) : Double :=
  x.add y.negate

def mul : Double → Double → Double
  | .nan, _ => .nan
  | _, .nan => .nan
  | .infinite s, .infinite t => .infinite (s != t)
  | .infinite s, .finite t b _ => if b = 0 then .nan else .infinite (s != t)
  | .finite s a _, .infinite t => if a = 0 then .nan else .infinite (s != t)
  | .finite s a _, .finite t b _ => nearest (s != t) (a * b) one

def div : Double → Double → Double
  | .nan, _ => .nan
  | _, .nan => .nan
  | .infinite _, .infinite _ => .nan
  | .infinite s, .finite t _ _ => .infinite (s != t)
  | .finite s _ _, .infinite t => zero (s != t)
  | .finite s a _, .finite t b _ =>
    if b = 0 then if a = 0 then .nan else .infinite (s != t)
    else nearest (s != t) (a * one) b

/-- A zero of either sign. -/
def IsZero (x : Double) : Prop :=
  x = zero false ∨ x = zero true

instance (x : Double) : Decidable x.IsZero :=
  inferInstanceAs (Decidable (_ ∨ _))

/-- Whether the sign is a minus. What is not a number has no sign. -/
def isNegative : Double → Bool
  | .nan => false
  | .infinite negative => negative
  | .finite negative _ _ => negative

/-- The magnitude of the first double with the sign of the second. -/
def copySign : Double → Double → Double
  | .nan, _ => .nan
  | .infinite _, y => .infinite y.isNegative
  | .finite _ units h, y => .finite y.isNegative units h

/-- The quotient, which by a zero is an infinity with the sign of the dividend times one with the sign
of the zero, unless there is nothing to divide. -/
def quotient (x y : Double) : Double :=
  if y.IsZero then
    if x.IsZero ∨ x = .nan then .nan
    else (copySign (.infinite false) x).mul (copySign (ofInt 1) y)
  else x.div y

end StraightLine.Double
