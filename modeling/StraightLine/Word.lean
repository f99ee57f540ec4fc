/-!
Signed words of 64 bits. A word is held as the integer it stands for; arithmetic is that of the
integers, and its results are brought back into range by whole turns of 2^64.
-/

namespace StraightLine.Word

-- Powers are the core library's, whatever else is imported.
attribute [local instance (high)] instPowNat

def least : Int := -2 ^ (63 : Nat)

def greatest : Int := 2 ^ (63 : Nat) - 1

/-- The integers that are words. -/
def InRange (n : Int) : Prop :=
  least ≤ n ∧ n ≤ greatest

instance (n : Int) : Decidable (InRange n) :=
  inferInstanceAs (Decidable (_ ∧ _))

/-- The word that differs from the integer by whole turns: the distance from the least word without
whole turns, counted from the least word. -/
def wrap (n : Int) : Int :=
  (n - least) % 2 ^ (64 : Nat) + least

/-- The quotient of the magnitudes, which is negative if one operand alone is. -/
def quotient (a b : Int) : Int :=
  let magnitude : Int := (a.natAbs / b.natAbs : Nat)
  if a < 0 ↔ b < 0 then magnitude else -magnitude

theorem inRange_wrap (n : Int) : InRange (wrap n) := by
  unfold InRange wrap greatest least
  omega

theorem wrap_of_inRange {n : Int} (h : InRange n) : wrap n = n := by
  unfold InRange greatest least at h
  unfold wrap least
  omega

/-- Wrapping is the remainder of 2^64 that is balanced around zero. -/
theorem wrap_eq_bmod (n : Int) : wrap n = n.bmod (2 ^ (64 : Nat)) := by
  rw [Int.bmod_def]
  unfold wrap least
  omega

end StraightLine.Word
