import StraightLine.Proofs.Double.Canonical

/-!
The precision of numerals: how many digits stand from the first to the last that is not zero. It is the
least number of digits that the number can be written with, so that it depends on the number alone.
-/

namespace StraightLine

open Double (Digits trimZeros)

/-- That a number can be written with so many digits, whichever power of ten they count. -/
def WrittenWith (digits : Nat) (value : ℚ) : Prop :=
  ∃ (m : Nat) (power : Int), m < 10 ^ digits ∧ value = m * 10 ^ power

theorem WrittenWith.mono {digits digits' : Nat} {value : ℚ} (h : WrittenWith digits value)
    (hle : digits ≤ digits') : WrittenWith digits' value := by
  obtain ⟨m, power, hm, hvalue⟩ := h
  exact ⟨m, power, hm.trans_le (Nat.pow_le_pow_right (by decide) hle), hvalue⟩

/-- Other powers of ten need no other digits. -/
theorem WrittenWith.mul_pow {digits : Nat} {value : ℚ} (h : WrittenWith digits value)
    (shift : Int) : WrittenWith digits (value * 10 ^ shift) := by
  obtain ⟨m, power, hm, rfl⟩ := h
  have hten : (10 : ℚ) ≠ 0 := by norm_num
  exact ⟨m, power + shift, hm, by rw [mul_assoc, zpow_add₀ hten]⟩

/-- Few digits reach a power of ten only if they count a power that makes up for it. -/
theorem lt_add_of_pow_le {m digits : Nat} {lead power : Int} (hm : m < 10 ^ digits)
    (h : (10 : ℚ) ^ lead ≤ m * 10 ^ power) : lead < digits + power := by
  have hten : (10 : ℚ) ≠ 0 := by norm_num
  have hlt : (10 : ℚ) ^ lead < 10 ^ (digits + power) := by
    calc (10 : ℚ) ^ lead ≤ m * 10 ^ power := h
      _ < 10 ^ digits * 10 ^ power :=
        mul_lt_mul_of_pos_right (by exact_mod_cast hm) (zpow_pos (by norm_num) power)
      _ = 10 ^ (digits + power) := by rw [zpow_add₀ hten, zpow_natCast]
  exact (zpow_lt_zpow_iff_right₀ (by norm_num)).mp hlt

/-- A number of so many digits that is not below a power of ten is a multiple of the power that its last
digit counts. -/
theorem WrittenWith.exists_multiple {digits length : Nat} {value : ℚ} (h : WrittenWith digits value)
    (hdigits : digits ≤ length + 1) (hge : (10 : ℚ) ^ length ≤ value) :
    ∃ k : Nat, value = (k * 10 ^ (length + 1 - digits) : Nat) := by
  obtain ⟨m, power, hm, rfl⟩ := h
  have hten : (10 : ℚ) ≠ 0 := by norm_num
  rw [← zpow_natCast] at hge
  have hlead := lt_add_of_pow_le hm hge
  obtain ⟨more, rfl⟩ : ∃ more : Nat, power = more + (length + 1 - digits : Nat) :=
    ⟨(power - (length + 1 - digits : Nat)).toNat, by omega⟩
  refine ⟨m * 10 ^ more, ?_⟩
  rw [zpow_add₀ hten, zpow_natCast, zpow_natCast]
  push_cast
  ring

namespace Numeral

/-- The digits of a numeral without the zeros in front and at the end, and the power of the first. -/
def significant (n : Numeral) : Digits :=
  let digits := (n.whole ++ n.fraction).dropWhile (· == '0')
  ⟨trimZeros digits, n.power - n.fraction.length + digits.length - 1⟩

/-- How many digits a numeral shows, zeros in front and at the end not counted. -/
def precision (n : Numeral) : Nat :=
  n.significant.digits.length

example : precision ⟨false, "00120".toList, "0340".toList, -7⟩ = 6 ∧
    precision ⟨true, "0".toList, "0005".toList, 12⟩ = 1 ∧ precision ⟨false, ['0'], [], 0⟩ = 0 := by
  decide

theorem exists_significant (n : Numeral) :
    ∃ front back, n.whole ++ n.fraction =
      List.replicate front '0' ++ n.significant.digits ++ List.replicate back '0' ∧
        n.significant.power + 1 - n.significant.digits.length =
          back + n.power - n.fraction.length := by
  obtain ⟨back, hback⟩ := Double.exists_trimZeros ((n.whole ++ n.fraction).dropWhile (· == '0'))
  have hfront : ∀ c ∈ (n.whole ++ n.fraction).takeWhile (· == '0'), c = '0' :=
    fun c hc => beq_iff_eq.mp (List.all_eq_true.mp List.all_takeWhile c hc)
  refine ⟨((n.whole ++ n.fraction).takeWhile (· == '0')).length, back, ?_, ?_⟩
  · rw [← List.eq_replicate_of_mem hfront, List.append_assoc, significant, ← hback,
      List.takeWhile_append_dropWhile]
  · have hlength := congrArg List.length hback
    rw [List.length_append, List.length_replicate] at hlength
    rw [significant]
    dsimp only
    omega

theorem value_significant (n : Numeral) : n.significant.value = n.value := by
  obtain ⟨front, back, hdigits, hpower⟩ := n.exists_significant
  exact (value_of_digits hdigits hpower).symm

theorem WellFormed.isDigit_of_mem_significant {n : Numeral} (h : n.WellFormed) :
    ∀ c ∈ n.significant.digits, c.isDigit := by
  obtain ⟨front, back, hdigits, -⟩ := n.exists_significant
  intro c hc
  refine h.digits c ?_
  rw [hdigits]
  exact List.mem_append_left _ (List.mem_append_right _ hc)

theorem WellFormed.significant {n : Numeral} (h : n.WellFormed)
    (hne : n.significant.digits ≠ []) : n.significant.Significant := by
  refine ⟨⟨h.isDigit_of_mem_significant, hne⟩, ?_, Double.getLast?_trimZeros _⟩
  obtain ⟨back, hback⟩ := Double.exists_trimZeros ((n.whole ++ n.fraction).dropWhile (· == '0'))
  change trimZeros ((n.whole ++ n.fraction).dropWhile (· == '0')) ≠ [] at hne
  change (trimZeros ((n.whole ++ n.fraction).dropWhile (· == '0'))).head? ≠ some '0'
  intro hzero
  have hhead := List.head?_dropWhile_not (· == '0') (n.whole ++ n.fraction)
  rw [hback, Text.head?_append_of_ne_nil hne, hzero] at hhead
  cases hhead

end Numeral

/-- Digits that begin and end with another digit than zero are as few as can be. -/
theorem Double.Digits.Significant.length_le {d : Digits} (h : d.Significant) {digits : Nat}
    (hwritten : WrittenWith digits d.value) : d.digits.length ≤ digits := by
  obtain ⟨m, power, hm, hvalue⟩ := hwritten
  have hten : (10 : ℚ) ≠ 0 := by norm_num
  have hlead : d.power < digits + power := lt_add_of_pow_le hm (hvalue ▸ h.leadsAt.1)
  -- Were the last digit left of the power of ten, it would be a zero.
  have hlast : power ≤ d.power + 1 - d.digits.length := by
    by_contra hlt
    obtain ⟨more, hmore⟩ := Int.lt.dest (Int.not_le.mp hlt)
    have hcast : (Text.digitsValue d.digits : ℚ) = (m * 10 ^ more.succ : Nat) := by
      have hpow : (10 : ℚ) ^ (d.power + 1 - d.digits.length) ≠ 0 := zpow_ne_zero _ hten
      apply mul_right_cancel₀ hpow
      calc (Text.digitsValue d.digits : ℚ) * 10 ^ (d.power + 1 - d.digits.length)
          = m * 10 ^ power := hvalue
        _ = (m * 10 ^ more.succ : Nat) * 10 ^ (d.power + 1 - d.digits.length) := by
          rw [← hmore, zpow_add₀ hten, zpow_natCast]
          push_cast
          ring
    have hdigits : Text.digitsValue d.digits = 10 * (m * 10 ^ more) := by
      rw [Nat.cast_inj.mp hcast, Nat.pow_succ]
      ring
    exact h.trailing (Text.getLast?_of_ten_dvd h.digits h.nonempty ⟨_, hdigits⟩)
  omega

/-- **The precision is the least number of digits** that the number can be written with. -/
theorem Numeral.WellFormed.precision_le_iff {n : Numeral} (h : n.WellFormed) {digits : Nat} :
    n.precision ≤ digits ↔ WrittenWith digits n.value := by
  rw [← n.value_significant]
  constructor
  · intro hle
    have hdigits := Text.digitsValue_lt h.isDigit_of_mem_significant
    exact WrittenWith.mono ⟨_, _, hdigits, rfl⟩ hle
  · intro hwritten
    by_cases hne : n.significant.digits = []
    · rw [precision, hne]
      exact Nat.zero_le digits
    · exact (h.significant hne).length_le hwritten

end StraightLine
