import Mathlib.Data.Nat.Dist
import StraightLine.Proofs.Double.Nearest
import StraightLine.Proofs.Text.Precision

/-!
Shortest decimals are shortest. What rounds to a double is an interval, so that the multiples of a power
of ten around the exact decimal decide for all others; and a numeral with fewer digits counts a greater
power of ten, unless a power of ten itself lies in the interval.
-/

namespace StraightLine

namespace Double

/-! ### What rounds to a double is an interval -/

theorem abs_sub_le_iff_of_lt {u other x : ℚ} (h : u < other) :
    |u - x| ≤ |other - x| ↔ 2 * x ≤ u + other := by
  constructor
  · intro hle
    rcases le_abs.mp hle with hle | hle <;> obtain ⟨hlower, hupper⟩ := abs_le.mp hle <;> linarith
  · intro hle
    refine le_abs.mpr (Or.inl (abs_le.mpr ⟨?_, ?_⟩)) <;> linarith

theorem abs_sub_le_iff_of_gt {u other x : ℚ} (h : other < u) :
    |u - x| ≤ |other - x| ↔ u + other ≤ 2 * x := by
  have hneg := abs_sub_le_iff_of_lt (neg_lt_neg h) (x := -x)
  rw [neg_sub_neg, neg_sub_neg, abs_sub_comm x, abs_sub_comm x] at hneg
  rw [hneg]
  constructor <;> intro hle <;> linarith

theorem Nearest.between {among : Nat → Prop} {lower upper x : ℚ} {units : Nat}
    (hlower : Nearest among lower units) (hupper : Nearest among upper units) (hle : lower ≤ x)
    (hge : x ≤ upper) : Nearest among x units := by
  refine ⟨hlower.mem, fun other hother => ?_, fun other hother hne htie => ?_⟩
  · have hbelow := hlower.closest other hother
    have habove := hupper.closest other hother
    rcases lt_trichotomy (other : ℚ) units with hlt | heq | hgt
    · rw [abs_sub_le_iff_of_gt hlt] at hbelow ⊢
      linarith
    · rw [heq]
    · rw [abs_sub_le_iff_of_lt hgt] at habove ⊢
      linarith
  · -- A tie within the interval is at one of its ends.
    have hbelow := hlower.closest other hother
    have habove := hupper.closest other hother
    rcases lt_or_gt_of_ne (Nat.cast_injective.ne hne : (other : ℚ) ≠ units) with hlt | hgt
    · have hfar := htie.le
      rw [abs_sub_le_iff_of_gt hlt] at hbelow
      rw [abs_sub_le_iff_of_lt hlt] at hfar
      obtain rfl : lower = x := by linarith
      exact hlower.even other hother hne htie
    · have hfar := htie.le
      rw [abs_sub_le_iff_of_lt hgt] at habove
      rw [abs_sub_le_iff_of_gt hgt] at hfar
      obtain rfl : upper = x := by linarith
      exact hupper.even other hother hne htie

theorem IsNearest.between {negative : Bool} {units : Nat} {h : Representable units}
    {lower upper x : ℚ}
    (hlower : IsNearest negative lower (.finite negative units h))
    (hupper : IsNearest negative upper (.finite negative units h)) (hle : lower ≤ x)
    (hge : x ≤ upper) : IsNearest negative x (.finite negative units h) := by
  cases hlower with
  | finite _ _ hlower =>
      cases hupper with
      | finite _ hrange hupper =>
          exact .finite h (hge.trans_lt hrange) (hlower.between hupper hle hge)

/-- A decimal reads back if and only if the double is the nearest to it. -/
theorem readsBack_iff (negative : Bool) {units : Nat} (h : Representable units) {decimal : Nat} :
    ReadsBack units decimal ↔
      IsNearest negative (decimal / decimalUnits) (.finite negative units h) := by
  rw [isNearest_iff decimalUnits_pos]
  constructor
  · intro hback
    exact (nearest_eq_finite hback).symm
  · intro heq
    unfold nearest at heq
    split at heq
    · exact (Double.finite.inj heq).2.symm
    · cases heq

theorem ReadsBack.between {units lower upper decimal : Nat} (h : Representable units)
    (hlower : ReadsBack units lower) (hupper : ReadsBack units upper) (hle : lower ≤ decimal)
    (hge : decimal ≤ upper) : ReadsBack units decimal := by
  have hscale : (0 : ℚ) ≤ decimalUnits := Nat.cast_nonneg _
  rw [readsBack_iff false h] at hlower hupper ⊢
  exact hlower.between hupper (div_le_div_of_nonneg_right (Nat.cast_le.mpr hle) hscale)
    (div_le_div_of_nonneg_right (Nat.cast_le.mpr hge) hscale)

/-! ### One grid -/

section Grid

variable {units exact grid best : Nat}

/-- What is best on a grid is the neighbour below or the one above, whichever reads back, and of both the
nearer one. -/
theorem bestOnGrid_cases (h : bestOnGrid units exact grid = some best) :
    (best = exact / grid * grid ∧ ReadsBack units best ∧
      (ReadsBack units (best + grid) → exact - best ≤ best + grid - exact)) ∨
    (best = exact / grid * grid + grid ∧ ReadsBack units best ∧
      (ReadsBack units (exact / grid * grid) → best - exact ≤ exact - exact / grid * grid)) := by
  unfold bestOnGrid at h
  dsimp only at h
  by_cases hbelow : ReadsBack units (exact / grid * grid)
  · rw [if_pos hbelow] at h
    split at h
    · rename_i habove
      cases h
      exact Or.inr ⟨rfl, habove.1, fun _ => by omega⟩
    · rename_i habove
      cases h
      refine Or.inl ⟨rfl, hbelow, fun hback => ?_⟩
      by_contra hnearer
      exact habove ⟨hback, Or.inl (Nat.not_le.mp hnearer)⟩
  · rw [if_neg hbelow] at h
    split at h
    · rename_i habove
      cases h
      exact Or.inr ⟨rfl, habove, fun hback => absurd hback hbelow⟩
    · cases h

theorem dvd_of_bestOnGrid (h : bestOnGrid units exact grid = some best) : grid ∣ best := by
  rcases bestOnGrid_cases h with ⟨rfl, -, -⟩ | ⟨rfl, -, -⟩
  · exact Nat.dvd_mul_left grid _
  · exact Nat.dvd_add (Nat.dvd_mul_left grid _) (Nat.dvd_refl grid)

variable (hunits : Representable units) (hexact : ReadsBack units exact) (hgrid : 0 < grid)

include hunits hexact hgrid

/-- Of the two neighbours on a grid one reads back and is as near as any multiple that does. -/
theorem neighbour_of_readsBack {k : Nat} (hk : ReadsBack units (k * grid)) :
    (ReadsBack units (exact / grid * grid) ∧
      Nat.dist (exact / grid * grid) exact ≤ Nat.dist (k * grid) exact) ∨
    (ReadsBack units (exact / grid * grid + grid) ∧
      Nat.dist (exact / grid * grid + grid) exact ≤ Nat.dist (k * grid) exact) := by
  have hbelow : exact / grid * grid ≤ exact := Nat.div_mul_le_self exact grid
  have habove : exact < exact / grid * grid + grid := Nat.lt_div_mul_add hgrid
  unfold Nat.dist
  rcases Nat.lt_or_ge exact (k * grid) with hgt | hle
  · have hfurther : (exact / grid + 1) * grid ≤ k * grid :=
      Nat.mul_le_mul_right grid ((Nat.div_lt_iff_lt_mul hgrid).mpr hgt)
    rw [Nat.succ_mul] at hfurther
    exact Or.inr ⟨hexact.between hunits hk habove.le hfurther, by omega⟩
  · have hfurther : k * grid ≤ exact / grid * grid :=
      Nat.mul_le_mul_right grid ((Nat.le_div_iff_mul_le hgrid).mpr hle)
    exact Or.inl ⟨hk.between hunits hexact hfurther hbelow, by omega⟩

theorem bestOnGrid_ne_none {k : Nat} (hk : ReadsBack units (k * grid)) :
    bestOnGrid units exact grid ≠ none := by
  intro hnone
  unfold bestOnGrid at hnone
  dsimp only at hnone
  rcases neighbour_of_readsBack hunits hexact hgrid hk with ⟨hback, -⟩ | ⟨hback, -⟩
  · rw [if_pos hback] at hnone
    split at hnone <;> cases hnone
  · rw [if_pos hback] at hnone
    split at hnone
    · split at hnone <;> cases hnone
    · cases hnone

theorem dist_bestOnGrid_le (h : bestOnGrid units exact grid = some best) {k : Nat}
    (hk : ReadsBack units (k * grid)) : Nat.dist best exact ≤ Nat.dist (k * grid) exact := by
  have hbelow : exact / grid * grid ≤ exact := Nat.div_mul_le_self exact grid
  have habove : exact < exact / grid * grid + grid := Nat.lt_div_mul_add hgrid
  rcases neighbour_of_readsBack hunits hexact hgrid hk with ⟨hback, hnear⟩ | ⟨hback, hnear⟩
  · refine le_trans ?_ hnear
    rcases bestOnGrid_cases h with ⟨rfl, -, -⟩ | ⟨rfl, -, hcloser⟩
    · exact le_rfl
    · have := hcloser hback
      unfold Nat.dist
      omega
  · refine le_trans ?_ hnear
    rcases bestOnGrid_cases h with ⟨rfl, -, hcloser⟩ | ⟨rfl, -, -⟩
    · have := hcloser hback
      unfold Nat.dist
      omega
    · exact le_rfl

end Grid

/-! ### The search -/

/-- That a decimal ends in so many zeros at least, that of those which do and read back none is nearer to
the exact decimal, and that none with more zeros, up to `most`, reads back. -/
structure Coarsest (units exact most decimal dropped : Nat) : Prop where
  le : dropped ≤ most
  dvd : 10 ^ dropped ∣ decimal
  closest : ∀ k, ReadsBack units (k * 10 ^ dropped) →
    Nat.dist decimal exact ≤ Nat.dist (k * 10 ^ dropped) exact
  coarser : ∀ more, dropped < more → more ≤ most → ∀ k, ¬ReadsBack units (k * 10 ^ more)

/-- **The search ends on the coarsest grid** with a decimal that reads back. -/
theorem exists_coarsest {units exact : Nat} (hunits : Representable units)
    (hexact : ReadsBack units exact) (most : Nat) :
    ∃ dropped, Coarsest units exact most (shortestFrom units exact most) dropped := by
  induction most with
  | zero =>
      refine ⟨0, le_rfl, Nat.one_dvd _, fun k _ => ?_, fun more hlt hle => absurd hle (by omega)⟩
      rw [shortestFrom, Nat.dist_self]
      exact Nat.zero_le _
  | succ most ih =>
      have hgrid : 0 < 10 ^ (most + 1) := Nat.pow_pos (by decide)
      rw [shortestFrom]
      cases hbest : bestOnGrid units exact (10 ^ (most + 1)) with
      | none =>
          obtain ⟨dropped, hle, hdvd, hclosest, hcoarser⟩ := ih
          refine ⟨dropped, hle.trans (Nat.le_succ most), hdvd, hclosest, fun more hlt hmore k hk => ?_⟩
          rcases Nat.le_succ_iff.mp hmore with hmore | rfl
          · exact hcoarser more hlt hmore k hk
          · exact bestOnGrid_ne_none hunits hexact hgrid hk hbest
      | some best =>
          exact ⟨most + 1, le_rfl, dvd_of_bestOnGrid hbest,
            fun k hk => dist_bestOnGrid_le hunits hexact hgrid hbest hk,
            fun more hlt hle => absurd hle (Nat.not_le.mpr hlt)⟩

/-! ### Numerals with few digits -/

theorem pow_le_of_length_toDigits {n length : Nat} (hn : n ≠ 0)
    (h : (Nat.toDigits 10 n).length = length + 1) : 10 ^ length ≤ n ∧ n < 10 ^ (length + 1) := by
  constructor
  · rcases Nat.eq_zero_or_pos length with rfl | hpos
    · exact Nat.one_le_iff_ne_zero.mpr hn
    · by_contra hlt
      have hle := (Nat.length_toDigits_le_iff (by decide) hpos).mpr (Nat.not_le.mp hlt)
      omega
  · exact (Nat.length_toDigits_le_iff (by decide) (Nat.succ_pos length)).mp h.le

theorem cast_dist (a b : Nat) : (Nat.dist a b : ℚ) = |(a : ℚ) - b| := by
  rcases Nat.le_total a b with h | h
  · rw [Nat.dist_eq_sub_of_le h, Nat.cast_sub h, abs_sub_comm,
      abs_of_nonneg (sub_nonneg.mpr (Nat.cast_le.mpr h))]
  · rw [Nat.dist_eq_sub_of_le_right h, Nat.cast_sub h,
      abs_of_nonneg (sub_nonneg.mpr (Nat.cast_le.mpr h))]

section Few

variable {units exact length : Nat} (hunits : Representable units) (hexact : ReadsBack units exact)
  (hlower : 10 ^ length ≤ exact)

include hunits hexact

/-- The decimal that the search ends with has as many digits as its grid leaves it. -/
theorem Coarsest.writtenWith {decimal dropped : Nat}
    (h : Coarsest units exact length decimal dropped) (hupper : exact < 10 ^ (length + 1))
    (hback : ReadsBack units decimal) : WrittenWith (length + 1 - dropped) decimal := by
  have hdropped := h.le
  have hsplit : 10 ^ (length + 1 - dropped) * 10 ^ dropped = 10 ^ (length + 1) := by
    rw [← Nat.pow_add]
    congr 1
    omega
  have hle : decimal ≤ 10 ^ (length + 1) := by
    by_contra hgt
    have hpower := hexact.between hunits hback hupper.le (Nat.not_le.mp hgt).le
    rw [← hsplit] at hpower
    have hnear := h.closest _ hpower
    rw [hsplit] at hnear
    unfold Nat.dist at hnear
    omega
  rcases hle.lt_or_eq with hlt | rfl
  · obtain ⟨m, rfl⟩ := h.dvd
    refine ⟨m, dropped, ?_, ?_⟩
    · rw [← hsplit, Nat.mul_comm] at hlt
      exact Nat.lt_of_mul_lt_mul_right hlt
    · rw [zpow_natCast]
      push_cast
      ring
  · refine ⟨1, (length + 1 : Nat), Nat.one_lt_pow (by omega) (by decide), ?_⟩
    rw [zpow_natCast]
    push_cast
    ring

include hlower

/-- Any number of so many digits that rounds to a double has a decimal beside it on the grid of that many
digits that is no farther off. It is the number itself, unless that has more places: then it lies below
the leading digit of the exact decimal, and the power of ten there is nearer. -/
theorem exists_multiple_near {negative : Bool} {digits : Nat} (hpos : 0 < digits)
    (hdigits : digits ≤ length + 1) {value : ℚ} (hwritten : WrittenWith digits value)
    (hback : IsNearest negative (value / decimalUnits) (.finite negative units hunits)) :
    ∃ k, ReadsBack units (k * 10 ^ (length + 1 - digits)) ∧
      (Nat.dist (k * 10 ^ (length + 1 - digits)) exact : ℚ) ≤ |value - exact| := by
  have hlowerq : (10 : ℚ) ^ length ≤ exact := by exact_mod_cast hlower
  rcases le_or_gt ((10 : ℚ) ^ length) value with hge | hlt
  · obtain ⟨k, rfl⟩ := hwritten.exists_multiple hdigits hge
    exact ⟨k, (readsBack_iff negative hunits).mpr hback, (cast_dist _ _).le⟩
  · have hsplit : 10 ^ (digits - 1) * 10 ^ (length + 1 - digits) = 10 ^ length := by
      rw [← Nat.pow_add]
      congr 1
      omega
    have hscale : (0 : ℚ) ≤ decimalUnits := Nat.cast_nonneg _
    have hpower : ReadsBack units (10 ^ length) := by
      rw [readsBack_iff negative hunits] at hexact ⊢
      refine hback.between hexact ?_ (div_le_div_of_nonneg_right (Nat.cast_le.mpr hlower) hscale)
      refine div_le_div_of_nonneg_right ?_ hscale
      push_cast
      exact hlt.le
    refine ⟨10 ^ (digits - 1), by rwa [hsplit], ?_⟩
    rw [hsplit, cast_dist, abs_sub_comm, abs_sub_comm value]
    push_cast
    rw [abs_of_nonneg (by linarith), abs_of_nonneg (by linarith)]
    linarith

/-- No number of fewer digits rounds to the double, and none of as many is nearer to it. -/
theorem Coarsest.minimal {negative : Bool} {decimal dropped digits : Nat}
    (h : Coarsest units exact length decimal dropped) (hpos : 0 < digits) {value : ℚ}
    (hwritten : WrittenWith digits value)
    (hback : IsNearest negative (value / decimalUnits) (.finite negative units hunits)) :
    length + 1 - dropped ≤ digits ∧
      (length + 1 - dropped = digits → |(decimal : ℚ) - exact| ≤ |value - exact|) := by
  have hdropped := h.le
  constructor
  · by_contra hfewer
    obtain ⟨k, hk, -⟩ :=
      exists_multiple_near hunits hexact hlower hpos (by omega) hwritten hback
    exact h.coarser _ (by omega) (by omega) k hk
  · rintro rfl
    have hgrid : length + 1 - (length + 1 - dropped) = dropped := by omega
    obtain ⟨k, hk, hnear⟩ :=
      exists_multiple_near hunits hexact hlower hpos (Nat.sub_le _ _) hwritten hback
    rw [hgrid] at hk hnear
    rw [← cast_dist]
    exact le_trans (Nat.cast_le.mpr (h.closest k hk)) hnear

end Few

/-- Without any digit there is only zero, which rounds to no other double. -/
theorem pos_of_writtenWith {negative : Bool} {units : Nat} {h : Representable units}
    (hunits : units ≠ 0) {digits : Nat} {value : ℚ} (hwritten : WrittenWith digits value)
    (hback : IsNearest negative (value / decimalUnits) (.finite negative units h)) : 0 < digits := by
  rcases Nat.eq_zero_or_pos digits with rfl | hpos
  · obtain ⟨m, power, hm, rfl⟩ := hwritten
    obtain rfl : m = 0 := Nat.lt_one_iff.mp hm
    rw [Nat.cast_zero, zero_mul, ← Nat.cast_zero, ← readsBack_iff, ReadsBack,
      roundUnits_zero decimalUnits_pos] at hback
    exact absurd hback.symm hunits
  · exact hpos

/-- **No number of fewer digits rounds to a double** than its shortest decimal has, and none of as many
digits is nearer to it. -/
theorem shortest_minimal {negative : Bool} {units : Nat} (h : Representable units) (hunits : units ≠ 0)
    {digits : Nat} {value : ℚ} (hwritten : WrittenWith digits value)
    (hback : IsNearest negative (value / decimalUnits) (.finite negative units h)) :
    ∃ fewest ≤ digits, WrittenWith fewest (shortest units) ∧
      (fewest = digits → |(shortest units : ℚ) - (units * decimalUnits : Nat)| ≤
        |value - (units * decimalUnits : Nat)|) := by
  have hexact : ReadsBack units (units * decimalUnits) := roundUnits_mul_self decimalUnits_pos h.2
  have hne : units * decimalUnits ≠ 0 := Nat.mul_ne_zero hunits decimalUnits_pos.ne'
  obtain ⟨length, hlength⟩ : ∃ length, (Nat.toDigits 10 (units * decimalUnits)).length = length + 1 :=
    Nat.exists_eq_add_one.mpr Nat.length_toDigits_pos
  obtain ⟨hlower, hupper⟩ := pow_le_of_length_toDigits hne hlength
  have hshortest : shortest units = shortestFrom units (units * decimalUnits) length := by
    rw [shortest, hlength, Nat.add_sub_cancel]
  obtain ⟨dropped, hcoarsest⟩ := exists_coarsest h hexact length
  rw [← hshortest] at hcoarsest
  obtain ⟨hfewest, hnear⟩ :=
    hcoarsest.minimal h hexact hlower (pos_of_writtenWith hunits hwritten hback) hwritten hback
  exact ⟨length + 1 - dropped, hfewest,
    hcoarsest.writtenWith h hexact hupper (readsBack_shortest h.2), hnear⟩

theorem IsNearest.negative_eq {negative negative' : Bool} {x : ℚ} {units : Nat}
    {h : Representable units} (hnearest : IsNearest negative' x (.finite negative units h)) :
    negative' = negative := by
  cases hnearest
  rfl

end Double

/-! ### Decimal texts -/

open Double

namespace Numeral

/-- That a double is the nearest to a numeral, with the numeral's sign. -/
def RoundsTo (n : Numeral) (x : Double) : Prop :=
  IsNearest n.negative (n.value * one) x

theorem roundsTo_iff {n : Numeral} {num den : Nat} (hden : 0 < den)
    (h : n.value * one = num / den) {x : Double} : n.RoundsTo x ↔ x = nearest n.negative num den := by
  rw [RoundsTo, h]
  exact isNearest_iff hden

/-- How far a numeral is from a magnitude, counted in the units of the decimals. -/
theorem abs_value_sub (n : Numeral) (units : Nat) :
    |n.value - units / one| =
      |n.value * (one * decimalUnits : Nat) - (units * decimalUnits : Nat)| /
        (one * decimalUnits : Nat) := by
  have hone : (one : ℚ) ≠ 0 := Nat.cast_ne_zero.mpr Double.one_pos.ne'
  have hscale : (0 : ℚ) < (one * decimalUnits : Nat) :=
    Nat.cast_pos.mpr (Nat.mul_pos Double.one_pos decimalUnits_pos)
  have hsplit : n.value - units / one =
      (n.value * (one * decimalUnits : Nat) - (units * decimalUnits : Nat)) /
        (one * decimalUnits : Nat) := by
    have hdecimal : (decimalUnits : ℚ) ≠ 0 := Nat.cast_ne_zero.mpr decimalUnits_pos.ne'
    -- The units are too many to be counted.
    generalize one = whole at hone
    generalize decimalUnits = decimals at hdecimal
    push_cast
    field_simp
  rw [hsplit, abs_div, abs_of_pos hscale]

end Numeral

/-- The units of the decimals are a power of ten. -/
theorem exists_places : ∃ places : Int, ((one * decimalUnits : Nat) : ℚ) = 10 ^ places := by
  rw [one_mul_decimalUnits]
  -- The power is too large to be computed.
  generalize 1074 = places
  exact ⟨places, by rw [zpow_natCast, Nat.cast_pow, Nat.cast_ofNat]⟩

/-- **Decimal texts are as short as can be.** The text of a finite double other than zero is a numeral
that rounds to it. Every numeral that does so has the sign of the double and no fewer significant
digits, and if it has as many it is no nearer to the double. -/
theorem decimalText_shortest (negative : Bool) {units : Nat} (h : Representable units)
    (hunits : units ≠ 0) :
    let x := Double.finite negative units h
    let shown := Numeral.ofText 'E' (Value.decimalText x).toList
    shown.WellFormed ∧ shown.RoundsTo x ∧
      ∀ n : Numeral, n.WellFormed → n.RoundsTo x →
        n.negative = negative ∧ shown.precision ≤ n.precision ∧
          (n.precision = shown.precision →
            |shown.value - units / one| ≤ |n.value - units / one|) := by
  intro x shown
  have htext : (Value.decimalText x).toList =
      Text.minus negative ++ magnitudeText Value.decimalLayout units := String.toList_ofList
  have hread : Reads 'E' (Value.decimalText x).toList negative
      (shortest units / (one * decimalUnits : Nat)) := by
    rw [htext]
    exact reads_magnitudeText Value.readable_decimalLayout negative h.2
  have hwellFormed : shown.WellFormed := hread.wellFormed
  have hnegative : shown.negative = negative := hread.negative
  have hvalue : shown.value = shortest units / (one * decimalUnits : Nat) := hread.value
  have hone : (one : ℚ) ≠ 0 := Nat.cast_ne_zero.mpr Double.one_pos.ne'
  have hdecimal : (decimalUnits : ℚ) ≠ 0 := Nat.cast_ne_zero.mpr decimalUnits_pos.ne'
  obtain ⟨places, hplaces⟩ := exists_places
  refine ⟨hwellFormed, ?_, fun n hn hround => ?_⟩
  · have hscaled : shown.value * one = shortest units / decimalUnits := by
      rw [hvalue]
      push_cast
      field_simp
    rw [Numeral.roundsTo_iff decimalUnits_pos hscaled, hnegative]
    exact (nearest_eq_finite (readsBack_shortest h.2)).symm
  · have hsign : n.negative = negative := hround.negative_eq
    have hscaled : n.value * (one * decimalUnits : Nat) / decimalUnits = n.value * one := by
      push_cast
      field_simp
    have hwritten : WrittenWith n.precision (n.value * (one * decimalUnits : Nat)) := by
      rw [hplaces]
      exact (hn.precision_le_iff.mp le_rfl).mul_pow places
    rw [Numeral.RoundsTo, ← hscaled, hsign] at hround
    obtain ⟨fewest, hfewest, hshortest, hnear⟩ := shortest_minimal h hunits hwritten hround
    have hshown : shown.precision ≤ fewest := by
      rw [hwellFormed.precision_le_iff, hvalue, hplaces, div_eq_mul_inv, ← zpow_neg]
      exact hshortest.mul_pow (-places)
    refine ⟨hsign, hshown.trans hfewest, fun heq => ?_⟩
    have hscale : (0 : ℚ) < (one * decimalUnits : Nat) :=
      Nat.cast_pos.mpr (Nat.mul_pos Double.one_pos decimalUnits_pos)
    rw [Numeral.abs_value_sub, Numeral.abs_value_sub, hvalue, div_mul_cancel₀ _ hscale.ne']
    refine div_le_div_of_nonneg_right (hnear ?_) hscale.le
    exact le_antisymm hfewest (heq.le.trans hshown)

/-- Below a power of two the gap is half as wide. The numeral that is nearest to 2^-44 among those of
sixteen digits lies behind it and rounds to the neighbour, so that the one above is shown. -/
example : Value.decimalText (.nearest false one (2 ^ 44)) = "5.684341886080802E-14" ∧
    Literal.decimal? "0.00000000000005684341886080801" ≠ some (.nearest false one (2 ^ 44)) := by
  decide +kernel

/-- All numerals from 3E-324 to 7E-324 round to the least magnitude, and the nearest of them is shown. -/
theorem decimalText_shortest_least :
    let x := Double.finite true 1 representable_least
    let shown := Numeral.ofText 'E' "-5E-324".toList
    let other : Numeral := ⟨true, ['3'], [], -324⟩
    Value.decimalText x = "-5E-324" ∧ (1 : Nat) ≠ 0 ∧ other.WellFormed ∧ other.RoundsTo x ∧
      other.precision = shown.precision ∧
        |shown.value - (1 : Nat) / one| ≤ |other.value - (1 : Nat) / one| := by
  intro x shown other
  have htext : Value.decimalText x = "-5E-324" := by decide +kernel
  have hother : other.WellFormed :=
    ⟨List.all_eq_true.mp rfl, List.all_eq_true.mp rfl, List.cons_ne_nil _ _⟩
  have hvalue : other.value * one = (3 * one : Nat) / (10 ^ 324 : Nat) := by
    have hplaces : other.power - other.fraction.length = -(324 : Nat) := rfl
    have hdigits : Text.digitsValue (other.whole ++ other.fraction) = 3 := rfl
    rw [Numeral.value, hplaces, hdigits]
    -- The powers are too large to be computed.
    generalize 324 = places
    generalize one = whole
    rw [zpow_neg, zpow_natCast]
    push_cast
    field_simp
  have hround : other.RoundsTo x := by
    rw [Numeral.roundsTo_iff (Nat.pow_pos (by decide)) hvalue]
    exact (nearest_eq_finite (by decide +kernel)).symm
  have hprecision : other.precision = shown.precision := by decide
  obtain ⟨-, -, hshortest⟩ := decimalText_shortest true representable_least Nat.one_ne_zero
  change ∀ n : Numeral, n.WellFormed → n.RoundsTo x → _ at hshortest
  rw [htext] at hshortest
  obtain ⟨-, -, hnear⟩ := hshortest other hother hround
  exact ⟨htext, Nat.one_ne_zero, hother, hround, hprecision, hnear hprecision⟩

end StraightLine
