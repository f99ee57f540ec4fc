import Mathlib.Data.Rat.Cast.Order
import Mathlib.Tactic.FieldSimp
import StraightLine.Double.Round

/-!
Rounding as a function of the quotient alone. The double nearest to a quotient does not depend on
how the quotient is written as one natural number over another, and a finite double is the nearest
to itself.
-/

namespace StraightLine.Double

theorem spacing_pos (units : Nat) : 0 < spacing units :=
  Nat.two_pow_pos _

/-! ### Quotients -/

theorem halfEven_mul_right (num den : Nat) {c : Nat} (hc : 0 < c) :
    halfEven (num * c) (den * c) = halfEven num den := by
  have hrest : 2 * (num % den * c) = 2 * (num % den) * c := (Nat.mul_assoc _ _ _).symm
  unfold halfEven
  dsimp only
  rw [Nat.mul_div_mul_right _ _ hc, Nat.mul_mod_mul_right, hrest]
  simp only [Nat.mul_lt_mul_right hc]

theorem roundUnits_mul_right (num den : Nat) {c : Nat} (hc : 0 < c) :
    roundUnits (num * c) (den * c) = roundUnits num den := by
  unfold roundUnits
  dsimp only
  rw [Nat.mul_div_mul_right _ _ hc, Nat.mul_right_comm den c, halfEven_mul_right _ _ hc]

/-- Equal quotients, compared across, round to the same magnitude. -/
theorem roundUnits_eq_of_mul_eq {num den num' den' : Nat} (hden : 0 < den) (hden' : 0 < den')
    (h : num * den' = num' * den) : roundUnits num den = roundUnits num' den' := by
  calc roundUnits num den
      = roundUnits (num * den') (den * den') := (roundUnits_mul_right num den hden').symm
    _ = roundUnits (num' * den) (den' * den) := by rw [h, Nat.mul_comm den den']
    _ = roundUnits num' den' := roundUnits_mul_right num' den' hden

theorem nearest_congr (negative : Bool) {num den num' den' : Nat}
    (h : roundUnits num den = roundUnits num' den') :
    nearest negative num den = nearest negative num' den' := by
  unfold nearest
  simp only [h]

/-- **The nearest double depends on the quotient only.** -/
theorem nearest_eq_of_div_eq (negative : Bool) {num den num' den' : Nat} (hden : 0 < den)
    (hden' : 0 < den') (h : (num : ℚ) / den = num' / den') :
    nearest negative num den = nearest negative num' den' := by
  have hdenq : (den : ℚ) ≠ 0 := Nat.cast_ne_zero.mpr (Nat.ne_of_gt hden)
  have hdenq' : (den' : ℚ) ≠ 0 := Nat.cast_ne_zero.mpr (Nat.ne_of_gt hden')
  rw [div_eq_div_iff hdenq hdenq'] at h
  exact nearest_congr negative (roundUnits_eq_of_mul_eq hden hden' (by exact_mod_cast h))

/-! ### Exact quotients -/

theorem halfEven_mul_self (n : Nat) {den : Nat} (hden : 0 < den) : halfEven (n * den) den = n := by
  unfold halfEven
  dsimp only
  rw [Nat.mul_div_cancel _ hden, Nat.mul_mod_left, Nat.mul_zero, if_pos hden]

/-- A multiple of the spacing at its size stays as it is. -/
theorem roundUnits_mul_self {units den : Nat} (hden : 0 < den) (h : spacing units ∣ units) :
    roundUnits (units * den) den = units := by
  obtain ⟨steps, hsteps⟩ := h
  have hpos : 0 < den * spacing units := Nat.mul_pos hden (spacing_pos units)
  have hnum : units * den = steps * (den * spacing units) := by
    calc units * den = spacing units * steps * den := by rw [← hsteps]
      _ = steps * (den * spacing units) := by ac_rfl
  unfold roundUnits
  dsimp only
  rw [Nat.mul_div_cancel _ hden, hnum, halfEven_mul_self steps hpos, Nat.mul_comm, ← hsteps]

/-- A quotient that rounds to the magnitude of a finite double has that double as its nearest. -/
theorem nearest_eq_finite {negative : Bool} {num den units : Nat} {h : Representable units}
    (hround : roundUnits num den = units) : nearest negative num den = .finite negative units h := by
  subst hround
  unfold nearest
  rw [dif_pos h.1]

end StraightLine.Double
