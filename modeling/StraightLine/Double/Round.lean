import StraightLine.Double.Basic

/-!
Rounding to the nearest double, ties to even. The exact result of an operation is a quotient of
natural numbers, in units, and is rounded once.
-/

namespace StraightLine.Double

-- Powers are the core library's, whatever else is imported.
attribute [local instance (high)] instPowNat

/-- The natural number nearest to a quotient, and of two as near the even one. -/
def halfEven (num den : Nat) : Nat :=
  let quotient := num / den
  let rest := num % den
  if 2 * rest < den then quotient
  else if den < 2 * rest then quotient + 1
  else quotient + quotient % 2

/-- The multiple of the spacing at a quotient that is nearest to it. -/
def roundUnits (num den : Nat) : Nat :=
  let step := spacing (num / den)
  halfEven num (den * step) * step

theorem le_halfEven (num den : Nat) : num / den ≤ halfEven num den := by
  unfold halfEven
  dsimp only
  split
  · exact Nat.le_refl _
  · split
    · exact Nat.le_succ _
    · exact Nat.le_add_right _ _

theorem halfEven_le_succ (num den : Nat) : halfEven num den ≤ num / den + 1 := by
  unfold halfEven
  dsimp only
  split
  · exact Nat.le_succ _
  · split
    · exact Nat.le_refl _
    · have := Nat.mod_lt (num / den) (by decide : 0 < 2)
      omega

/-- A number of 53 binary digits, or 2^53, times a power of two lies on the spacing at its size. -/
theorem spacing_dvd_mul_two_pow {m q : Nat} (h : m ≤ 2 ^ (53 : Nat)) :
    spacing (m * 2 ^ q) ∣ m * 2 ^ q := by
  unfold spacing
  by_cases hm : m = 2 ^ 53
  · subst hm
    rw [← Nat.pow_add, Nat.log2_two_pow]
    exact Nat.pow_dvd_pow 2 (Nat.sub_le _ _)
  · by_cases hz : m = 0
    · simp [hz]
    · have hlog : (m * 2 ^ q).log2 < 53 + q := by
        rw [Nat.log2_lt (Nat.mul_ne_zero hz (Nat.ne_of_gt (Nat.two_pow_pos q))), Nat.pow_add]
        exact Nat.mul_lt_mul_of_pos_right (Nat.lt_of_le_of_ne h hm) (Nat.two_pow_pos q)
      exact Nat.dvd_trans (Nat.pow_dvd_pow 2 (by omega)) (Nat.dvd_mul_left _ _)

/-- At the size of a quotient there are at most 2^53 steps of the spacing below it. -/
theorem div_spacing_lt (num den : Nat) : num / (den * spacing (num / den)) < 2 ^ (53 : Nat) := by
  rw [← Nat.div_div_eq_div_mul]
  unfold spacing
  rw [Nat.div_lt_iff_lt_mul (Nat.two_pow_pos _), ← Nat.pow_add]
  exact Nat.lt_of_lt_of_le Nat.lt_log2_self (Nat.pow_le_pow_right (by decide) (by omega))

theorem spacing_dvd_roundUnits (num den : Nat) :
    spacing (roundUnits num den) ∣ roundUnits num den := by
  unfold roundUnits
  dsimp only
  have h := halfEven_le_succ num (den * spacing (num / den))
  have := div_spacing_lt num den
  exact spacing_dvd_mul_two_pow (by omega)

/-- The double nearest to a quotient of units; from halfway past the largest finite one on it is
infinite. -/
def nearest (negative : Bool) (num den : Nat) : Double :=
  if h : roundUnits num den < limit then
    .finite negative (roundUnits num den) ⟨h, spacing_dvd_roundUnits num den⟩
  else .infinite negative

end StraightLine.Double
