import StraightLine.Double.Shortest
import StraightLine.Proofs.Double.Rounding

/-!
The shortest decimal of a magnitude rounds back to it. The search only keeps decimals that do, and
starts from the exact one.
-/

namespace StraightLine.Double

theorem one_pos : 0 < one := by
  unfold one
  apply Nat.pow_pos
  decide

theorem decimalUnits_pos : 0 < decimalUnits := by
  unfold decimalUnits
  apply Nat.pow_pos
  decide

theorem one_mul_decimalUnits : one * decimalUnits = 10 ^ 1074 := by
  unfold one decimalUnits
  -- The powers are too large to be computed.
  generalize 1074 = places
  rw [← Nat.mul_pow]

/-! ### The search -/

theorem readsBack_of_bestOnGrid {units exact grid decimal : Nat}
    (h : bestOnGrid units exact grid = some decimal) : ReadsBack units decimal := by
  unfold bestOnGrid at h
  dsimp only at h
  by_cases hbelow : ReadsBack units (exact / grid * grid)
  · rw [if_pos hbelow] at h
    split at h
    · rename_i habove
      cases h
      exact habove.1
    · cases h
      exact hbelow
  · rw [if_neg hbelow] at h
    split at h
    · rename_i habove
      cases h
      exact habove
    · cases h

theorem readsBack_shortestFrom {units exact : Nat} (hexact : ReadsBack units exact)
    (dropped : Nat) : ReadsBack units (shortestFrom units exact dropped) := by
  induction dropped with
  | zero => exact hexact
  | succ dropped ih =>
      rw [shortestFrom]
      cases hbest : bestOnGrid units exact (10 ^ (dropped + 1)) with
      | none => exact ih
      | some decimal => exact readsBack_of_bestOnGrid hbest

/-- **The shortest decimal rounds back.** -/
theorem readsBack_shortest {units : Nat} (h : spacing units ∣ units) :
    ReadsBack units (shortest units) :=
  readsBack_shortestFrom (roundUnits_mul_self decimalUnits_pos h) _

/-! ### Zero -/

theorem shortest_zero : shortest 0 = 0 := by
  unfold shortest
  rw [Nat.zero_mul]
  rfl

theorem roundUnits_zero {den : Nat} (hden : 0 < den) : roundUnits 0 den = 0 := by
  have h := roundUnits_mul_self hden (Nat.dvd_zero (spacing 0))
  rw [Nat.zero_mul] at h
  exact h

theorem shortest_ne_zero {units : Nat} (h : spacing units ∣ units) (hunits : units ≠ 0) :
    shortest units ≠ 0 := by
  intro hzero
  have hback := readsBack_shortest h
  rw [hzero, ReadsBack, roundUnits_zero decimalUnits_pos] at hback
  exact hunits hback.symm

end StraightLine.Double
