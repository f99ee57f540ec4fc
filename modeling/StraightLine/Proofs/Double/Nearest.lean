import Mathlib.Algebra.Order.Field.Basic
import Mathlib.Data.Nat.Cast.Order.Field
import Mathlib.Data.Nat.Log
import Mathlib.Tactic.Linarith
import Mathlib.Tactic.Ring
import StraightLine.Proofs.Double.Rounding

/-!
Rounding gives the nearest double. No number of 53 binary digits is nearer to a quotient than what it
is rounded to, and of two as near it is the even one; nothing else is nearest in this sense.
-/

namespace StraightLine.Double

/-! ### What is nearest -/

/-- That the last of the binary digits that a magnitude keeps is a zero. -/
def IsEven (units : Nat) : Prop :=
  Even (units / spacing units)

/-- That of some magnitudes none is nearer to a number, counted in the same units, and none that is as
near unless this one is even. -/
structure Nearest (among : Nat → Prop) (x : ℚ) (units : Nat) : Prop where
  mem : among units
  closest : ∀ other, among other → |(units : ℚ) - x| ≤ |(other : ℚ) - x|
  even : ∀ other, among other → other ≠ units → |(other : ℚ) - x| = |(units : ℚ) - x| → IsEven units

/-- The magnitudes of 53 binary digits, however large. -/
def OnGrid (units : Nat) : Prop :=
  spacing units ∣ units

/-- The exponent of the spacing at the greatest finite magnitudes. -/
def highest : Nat := 2045

/-- The greatest magnitude of a finite double: 53 ones in the highest places. -/
def greatest : Nat :=
  (2 ^ 53 - 1) * 2 ^ highest

/-- Halfway between the greatest finite magnitude and 2^1024, which is the next on the grid. -/
def overflow : ℚ :=
  ((greatest : ℚ) + limit) / 2

/-- Which double is nearest to a number. The magnitude of the number is `x`, in units, and its sign is
given apart: a double has it too where its magnitude is zero or infinite. -/
inductive IsNearest (negative : Bool) (x : ℚ) : Double → Prop where
  | finite {units : Nat} (h : Representable units) (hrange : x < overflow)
      (hnearest : Nearest Representable x units) : IsNearest negative x (.finite negative units h)
  | infinite (hrange : overflow ≤ x) : IsNearest negative x (.infinite negative)

/-! ### The spacing -/

theorem spacing_dvd_spacing {units units' : Nat} (h : units ≤ units') :
    spacing units ∣ spacing units' := by
  have hlog : units.log2 ≤ units'.log2 := by
    rw [Nat.log2_eq_log_two, Nat.log2_eq_log_two]
    exact Nat.log_mono_right h
  exact pow_dvd_pow 2 (Nat.sub_le_sub_right hlog 52)

theorem div_spacing_self_lt (units : Nat) : units / spacing units < 2 ^ 53 := by
  have hlt := div_spacing_lt units 1
  rwa [Nat.div_one, Nat.one_mul] at hlt

/-- A magnitude off the spacing at another one lies below the power of two there. -/
theorem OnGrid.lt_of_not_spacing_dvd {units m : Nat} (hunits : OnGrid units)
    (h : ¬spacing m ∣ units) : units < 2 ^ m.log2 ∧ 2 ^ m.log2 ≤ m ∧ spacing m ∣ 2 ^ m.log2 := by
  have hlog : units.log2 - 52 < m.log2 - 52 := by
    by_contra hle
    exact h ((pow_dvd_pow 2 (Nat.not_lt.mp hle)).trans hunits)
  have hm : m ≠ 0 := by
    rintro rfl
    exact absurd hlog (by simp)
  refine ⟨?_, Nat.log2_self_le hm, pow_dvd_pow 2 (Nat.sub_le _ _)⟩
  have hsize := Nat.lt_log2_self (n := units)
  exact hsize.trans_le (Nat.pow_le_pow_right (by decide) (by omega))

/-- An even number of at most 53 binary digits stays even as the magnitude of a double. -/
theorem isEven_mul_two_pow {m q : Nat} (hm : Even m) (h : m ≤ 2 ^ 53) : IsEven (m * 2 ^ q) := by
  unfold IsEven
  rcases h.eq_or_lt with rfl | hlt
  · have hspacing : spacing (2 ^ 53 * 2 ^ q) = 2 * 2 ^ q := by
      rw [spacing, ← pow_add, Nat.log2_two_pow, ← pow_succ']
      congr 1
      omega
    rw [hspacing, Nat.mul_div_mul_right _ _ (Nat.two_pow_pos q)]
    decide
  · rcases Nat.eq_zero_or_pos m with rfl | hpos
    · simp
    · have hlog : (m * 2 ^ q).log2 < 53 + q := by
        rw [Nat.log2_lt (Nat.mul_ne_zero hpos.ne' (Nat.two_pow_pos q).ne'), pow_add]
        exact Nat.mul_lt_mul_of_pos_right hlt (Nat.two_pow_pos q)
      have hdvd : spacing (m * 2 ^ q) ∣ 2 ^ q := pow_dvd_pow 2 (by omega)
      rw [Nat.mul_div_assoc m hdvd]
      exact hm.mul_right _

/-! ### Rounding to a multiple of the spacing -/

/-- A quotient is rounded by one half at most, and by as much only to an even number. -/
theorem halfEven_near (num : Nat) {den : Nat} (hden : 0 < den) :
    |(halfEven num den : ℚ) - num / den| ≤ 1 / 2 ∧
      (|(halfEven num den : ℚ) - num / den| = 1 / 2 → Even (halfEven num den)) := by
  have hdenq : (0 : ℚ) < den := Nat.cast_pos.mpr hden
  have hsplit : (num : ℚ) / den = (num / den : Nat) + (num % den : Nat) / den := by
    rw [div_eq_iff hdenq.ne', add_mul, div_mul_cancel₀ _ hdenq.ne', mul_comm]
    exact_mod_cast (Nat.div_add_mod num den).symm
  have hlt : num % den < den := Nat.mod_lt num hden
  rw [hsplit]
  unfold halfEven
  generalize num / den = quotient
  generalize num % den = rest at hlt ⊢
  have hnonneg : 0 ≤ (rest : ℚ) / den := div_nonneg (Nat.cast_nonneg rest) hdenq.le
  have hltone : (rest : ℚ) / den < 1 := (div_lt_one hdenq).mpr (Nat.cast_lt.mpr hlt)
  have hdouble : 2 * ((rest : ℚ) / den) = (2 * rest : Nat) / den := by
    push_cast
    ring
  dsimp only
  split
  · rename_i hbelow
    have hhalf : (2 * rest : Nat) / (den : ℚ) < 1 := (div_lt_one hdenq).mpr (Nat.cast_lt.mpr hbelow)
    have hnear : |(quotient : ℚ) - (quotient + rest / den)| < 1 / 2 := by
      rw [abs_lt]
      constructor <;> linarith
    exact ⟨hnear.le, fun heq => absurd heq hnear.ne⟩
  · split
    · rename_i habove
      have hhalf : 1 < (2 * rest : Nat) / (den : ℚ) := (one_lt_div hdenq).mpr (Nat.cast_lt.mpr habove)
      have hnear : |((quotient + 1 : Nat) : ℚ) - (quotient + rest / den)| < 1 / 2 := by
        rw [Nat.cast_add, Nat.cast_one, abs_lt]
        constructor <;> linarith
      exact ⟨hnear.le, fun heq => absurd heq hnear.ne⟩
    · rename_i hbelow habove
      have htie : 2 * rest = den := by omega
      have hhalf : (2 * rest : Nat) / (den : ℚ) = 1 := by rw [htie, div_self hdenq.ne']
      refine ⟨?_, fun _ => by rw [Nat.even_iff]; omega⟩
      have hparity : ((quotient % 2 : Nat) : ℚ) = 0 ∨ ((quotient % 2 : Nat) : ℚ) = 1 := by
        rcases Nat.mod_two_eq_zero_or_one quotient with h | h
        · exact Or.inl (by rw [h, Nat.cast_zero])
        · exact Or.inr (by rw [h, Nat.cast_one])
      rw [Nat.cast_add, abs_le]
      constructor <;> rcases hparity with h | h <;> linarith

theorem half_le_abs_sub {y : ℚ} {h k : Nat} (hnear : |(h : ℚ) - y| ≤ 1 / 2) (hne : k ≠ h) :
    1 / 2 ≤ |(k : ℚ) - y| := by
  have hapart : (1 : ℚ) ≤ |(k : ℚ) - h| := by
    have hint : 1 ≤ |(k : Int) - h| := Int.one_le_abs (sub_ne_zero.mpr (Nat.cast_injective.ne hne))
    exact_mod_cast hint
  have htriangle := abs_sub_le (k : ℚ) y h
  rw [abs_sub_comm y] at htriangle
  linarith

/-- No multiple of the spacing at a quotient is nearer to it, or as near unless that is even. -/
theorem roundUnits_closest_multiple (num : Nat) {den : Nat} (hden : 0 < den) (k : Nat) :
    let x : ℚ := num / den
    let other := k * spacing (num / den)
    |(roundUnits num den : ℚ) - x| ≤ |(other : ℚ) - x| ∧
      (other ≠ roundUnits num den → |(other : ℚ) - x| = |(roundUnits num den : ℚ) - x| →
        IsEven (roundUnits num den)) := by
  intro x other
  have hpos : (0 : ℚ) < spacing (num / den) := Nat.cast_pos.mpr (spacing_pos _)
  have hscale : ∀ j : Nat, |((j * spacing (num / den) : Nat) : ℚ) - x| =
      |(j : ℚ) - num / (den * spacing (num / den) : Nat)| * spacing (num / den) := by
    intro j
    have hx : (num / (den * spacing (num / den) : Nat) : ℚ) * spacing (num / den) = x := by
      rw [Nat.cast_mul, ← div_div, div_mul_cancel₀ _ hpos.ne']
    rw [Nat.cast_mul, ← hx, ← sub_mul, abs_mul, abs_of_pos hpos]
  obtain ⟨hnear, htie⟩ := halfEven_near num (Nat.mul_pos hden (spacing_pos (num / den)))
  have hround : roundUnits num den =
      halfEven num (den * spacing (num / den)) * spacing (num / den) := rfl
  rw [hround, hscale, hscale]
  by_cases hk : k = halfEven num (den * spacing (num / den))
  · rw [hk]
    exact ⟨le_rfl, fun hne => absurd (congrArg (· * spacing (num / den)) hk) hne⟩
  · have hfar := half_le_abs_sub hnear hk
    refine ⟨mul_le_mul_of_nonneg_right (hnear.trans hfar) hpos.le, fun _ heq => ?_⟩
    have hhalf := le_antisymm hnear (hfar.trans (mul_right_cancel₀ hpos.ne' heq).le)
    have hle := halfEven_le_succ num (den * spacing (num / den))
    have hlt := div_spacing_lt num den
    exact isEven_mul_two_pow (htie hhalf) (by omega)

/-- **Rounding is to the nearest** of all magnitudes of 53 binary digits, and to the even one of two.
Those off the spacing at the quotient are behind the power of two there. -/
theorem nearest_roundUnits (num : Nat) {den : Nat} (hden : 0 < den) :
    Nearest OnGrid (num / den) (roundUnits num den) := by
  have hbehind : ∀ other, OnGrid other → ¬spacing (num / den) ∣ other →
      |(roundUnits num den : ℚ) - num / den| < |(other : ℚ) - num / den| := by
    intro other hother hdvd
    obtain ⟨hlt, hle, hpower⟩ := hother.lt_of_not_spacing_dvd hdvd
    obtain ⟨k, hk⟩ := hpower
    have hclosest := (roundUnits_closest_multiple num hden k).1
    rw [mul_comm k, ← hk] at hclosest
    have hbelow : ((2 ^ (num / den).log2 : Nat) : ℚ) ≤ num / den :=
      (Nat.cast_le.mpr hle).trans Nat.cast_div_le
    have hltq : (other : ℚ) < (2 ^ (num / den).log2 : Nat) := Nat.cast_lt.mpr hlt
    refine hclosest.trans_lt ?_
    rw [abs_sub_comm, abs_of_nonneg (sub_nonneg.mpr hbelow), abs_sub_comm,
      abs_of_nonneg (sub_nonneg.mpr (hltq.le.trans hbelow))]
    linarith
  refine ⟨spacing_dvd_roundUnits num den, fun other hother => ?_, fun other hother hne heq => ?_⟩
  · by_cases hdvd : spacing (num / den) ∣ other
    · obtain ⟨k, rfl⟩ := hdvd
      rw [mul_comm]
      exact (roundUnits_closest_multiple num hden k).1
    · exact (hbehind other hother hdvd).le
  · by_cases hdvd : spacing (num / den) ∣ other
    · obtain ⟨k, rfl⟩ := hdvd
      rw [mul_comm] at hne heq
      exact (roundUnits_closest_multiple num hden k).2 hne heq
    · exact absurd heq.symm (hbehind other hother hdvd).ne

/-! ### Overflow -/

theorem limit_eq : limit = 2 ^ 53 * 2 ^ highest := by
  have hexponent : 2098 = 53 + highest := rfl
  unfold limit
  rw [hexponent, pow_add]

theorem onGrid_limit : OnGrid limit := by
  rw [limit_eq]
  generalize highest = q
  exact spacing_dvd_mul_two_pow le_rfl

/-- **The finite doubles** are the numbers of 53 binary digits times a power of two, up to the
highest. -/
theorem representable_iff {units : Nat} :
    Representable units ↔ ∃ m q, m < 2 ^ 53 ∧ q ≤ highest ∧ units = m * 2 ^ q := by
  constructor
  · rintro ⟨hlt, hgrid⟩
    refine ⟨units / spacing units, units.log2 - 52, div_spacing_self_lt units, ?_,
      (Nat.div_mul_cancel hgrid).symm⟩
    rcases eq_or_ne units 0 with rfl | hne
    · exact Nat.zero_le highest
    · rw [limit_eq, ← pow_add, ← Nat.log2_lt hne] at hlt
      omega
  · rintro ⟨m, q, hm, hq, rfl⟩
    refine ⟨?_, spacing_dvd_mul_two_pow hm.le⟩
    rw [limit_eq]
    exact Nat.mul_lt_mul_of_lt_of_le hm (Nat.pow_le_pow_right (by decide) hq)
      (Nat.two_pow_pos highest)

theorem representable_greatest : Representable greatest :=
  representable_iff.mpr ⟨2 ^ 53 - 1, highest, by decide, le_rfl, rfl⟩

theorem Representable.le_greatest {units : Nat} (h : Representable units) : units ≤ greatest := by
  obtain ⟨m, q, hm, hq, rfl⟩ := representable_iff.mp h
  exact Nat.mul_le_mul (Nat.le_pred_of_lt hm) (Nat.pow_le_pow_right (by decide) hq)

theorem spacing_ones (q : Nat) : spacing ((2 ^ 53 - 1) * 2 ^ q) = 2 ^ q := by
  have hlog : ((2 ^ 53 - 1) * 2 ^ q).log2 = 52 + q := by
    rw [Nat.log2_eq_iff (Nat.mul_pos (by decide) (Nat.two_pow_pos q)).ne', pow_add, Nat.add_right_comm,
      pow_add]
    exact ⟨Nat.mul_le_mul_right _ (by decide),
      Nat.mul_lt_mul_of_pos_right (by decide) (Nat.two_pow_pos q)⟩
  rw [spacing, hlog, Nat.add_sub_cancel_left]

theorem not_isEven_greatest : ¬IsEven greatest := by
  rw [IsEven, greatest, spacing_ones, Nat.mul_div_cancel _ (Nat.two_pow_pos highest)]
  decide

/-- What is nearest on the grid is the magnitude of a finite double exactly below the overflow. From
there on 2^1024 is as near as the greatest finite magnitude at least, and that one is odd. -/
theorem Nearest.lt_limit_iff {x : ℚ} {units : Nat} (h : Nearest OnGrid x units) :
    units < limit ↔ x < overflow := by
  have hfinite : (greatest : ℚ) < limit := Nat.cast_lt.mpr representable_greatest.1
  unfold overflow
  constructor
  · intro hlt
    by_contra hover
    rw [not_lt] at hover
    have hunits : (units : ℚ) ≤ greatest := Nat.cast_le.mpr (Representable.le_greatest ⟨hlt, h.mem⟩)
    have hlimit : |(limit : ℚ) - x| ≤ x - greatest := by
      rw [abs_le]
      constructor <;> linarith
    have hbelow : |(units : ℚ) - x| = x - units := by
      rw [abs_sub_comm, abs_of_nonneg (by linarith)]
    have hclosest := h.closest limit onGrid_limit
    have heven := h.even limit onGrid_limit hlt.ne' (by linarith)
    have heq : units = greatest := by
      have hcast : (units : ℚ) = greatest := by linarith
      exact_mod_cast hcast
    rw [heq] at heven
    exact not_isEven_greatest heven
  · intro hover
    by_contra hge
    have hunits : (limit : ℚ) ≤ units := Nat.cast_le.mpr (Nat.not_lt.mp hge)
    have hgreatest : |(greatest : ℚ) - x| < units - x := by
      rw [abs_lt]
      constructor <;> linarith
    have hclosest := h.closest greatest representable_greatest.2
    exact absurd (hclosest.trans_lt hgreatest) (le_abs_self _).not_gt

/-- **The nearest double is nearest.** -/
theorem isNearest_nearest (negative : Bool) (num : Nat) {den : Nat} (hden : 0 < den) :
    IsNearest negative (num / den) (nearest negative num den) := by
  have hround := nearest_roundUnits num hden
  unfold nearest
  split
  · rename_i hlt
    refine .finite _ (hround.lt_limit_iff.mp hlt) ⟨⟨hlt, hround.mem⟩, ?_, ?_⟩
    · exact fun other hother => hround.closest other hother.2
    · exact fun other hother => hround.even other hother.2
  · rename_i hge
    exact .infinite (not_lt.mp fun hlt => hge (hround.lt_limit_iff.mpr hlt))

/-! ### Uniqueness -/

theorem IsEven.two_mul_spacing_dvd {units : Nat} (h : IsEven units) (hgrid : OnGrid units) :
    2 * spacing units ∣ units := by
  obtain ⟨m, hm⟩ := h.two_dvd
  refine ⟨m, ?_⟩
  calc units = units / spacing units * spacing units := (Nat.div_mul_cancel hgrid).symm
    _ = 2 * spacing units * m := by rw [hm]; ring

theorem OnGrid.add_spacing {units : Nat} (h : OnGrid units) : OnGrid (units + spacing units) := by
  obtain ⟨m, hm⟩ := h
  have hlt := div_spacing_self_lt units
  rw [Nat.div_eq_of_eq_mul_right (spacing_pos units) hm] at hlt
  have hsum : units + spacing units = (m + 1) * spacing units := by
    nth_rewrite 1 [hm]
    ring
  rw [hsum]
  exact spacing_dvd_mul_two_pow hlt

/-- Two magnitudes that are both nearest to a number are neighbours: nothing lies between them. -/
theorem Nearest.sub_eq_spacing {x : ℚ} {units units' : Nat} (h : Nearest Representable x units)
    (h' : Nearest Representable x units') (hlt : units < units') :
    units' - units = spacing units := by
  have hstep : spacing units ∣ units' := (spacing_dvd_spacing hlt.le).trans h'.mem.2
  have hle : spacing units ≤ units' - units :=
    Nat.le_of_dvd (Nat.sub_pos_of_lt hlt) (Nat.dvd_sub hstep h.mem.2)
  have hnext : Representable (units + spacing units) :=
    ⟨(Nat.add_le_of_le_sub' hlt.le hle).trans_lt h'.mem.1, OnGrid.add_spacing h.mem.2⟩
  have hltq : (units : ℚ) < units' := Nat.cast_lt.mpr hlt
  have hspacing : (0 : ℚ) < spacing units := Nat.cast_pos.mpr (spacing_pos units)
  have hmiddle : 2 * x = units + units' := by
    have heq := le_antisymm (h.closest units' h'.mem) (h'.closest units h.mem)
    rcases abs_eq_abs.mp heq with hsame | hopposite <;> linarith
  refine le_antisymm (Nat.sub_le_iff_le_add'.mpr ?_) hle
  have hclosest := h.closest _ hnext
  rw [Nat.cast_add, abs_sub_comm, abs_of_nonneg (by linarith)] at hclosest
  rcases le_abs.mp hclosest with hback | hforth
  · have hcast : (units' : ℚ) ≤ units + spacing units := by linarith
    exact_mod_cast hcast
  · linarith

/-- Of two neighbours one is odd. -/
theorem Nearest.not_lt {x : ℚ} {units units' : Nat} (h : Nearest Representable x units)
    (h' : Nearest Representable x units') : ¬units < units' := by
  intro hlt
  have heq := le_antisymm (h.closest units' h'.mem) (h'.closest units h.mem)
  have heven := (h.even units' h'.mem hlt.ne' heq.symm).two_mul_spacing_dvd h.mem.2
  have heven' := (h'.even units h.mem hlt.ne heq).two_mul_spacing_dvd h'.mem.2
  have hdvd : 2 * spacing units ∣ units' - units :=
    Nat.dvd_sub ((Nat.mul_dvd_mul_left 2 (spacing_dvd_spacing hlt.le)).trans heven') heven
  rw [h.sub_eq_spacing h' hlt] at hdvd
  have hle := Nat.le_of_dvd (spacing_pos units) hdvd
  have hpos := spacing_pos units
  omega

theorem Nearest.unique {x : ℚ} {units units' : Nat} (h : Nearest Representable x units)
    (h' : Nearest Representable x units') : units = units' :=
  le_antisymm (Nat.not_lt.mp (h'.not_lt h)) (Nat.not_lt.mp (h.not_lt h'))

theorem IsNearest.unique {negative : Bool} {x : ℚ} {y y' : Double} (h : IsNearest negative x y)
    (h' : IsNearest negative x y') : y = y' := by
  cases h with
  | finite _ hrange hnearest =>
      cases h' with
      | finite _ _ hnearest' =>
          have hunits := hnearest.unique hnearest'
          subst hunits
          rfl
      | infinite hrange' => exact absurd hrange hrange'.not_gt
  | infinite hrange =>
      cases h' with
      | finite _ hrange' _ => exact absurd hrange' hrange.not_gt
      | infinite _ => rfl

/-- **The nearest double is the only one that is nearest.** -/
theorem isNearest_iff {negative : Bool} {num den : Nat} (hden : 0 < den) {y : Double} :
    IsNearest negative (num / den) y ↔ y = nearest negative num den := by
  have hnearest := isNearest_nearest negative num hden
  constructor
  · intro h
    exact h.unique hnearest
  · intro h
    rw [h]
    exact hnearest

end StraightLine.Double
