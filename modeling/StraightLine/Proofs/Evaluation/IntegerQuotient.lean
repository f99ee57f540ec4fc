import Mathlib.Algebra.Order.Group.Unbundled.Int
import StraightLine.Operation

/-!
Quotients of integers. Magnitudes and signs make them such that they are cut off toward zero, and of all
quotients of words only one is not a word itself: the least word by minus one. There the wrapped quotient
is that of the machine too.
-/

namespace StraightLine

namespace Word

/-- The cases are those that the quotient cut off toward zero is defined by. -/
theorem quotient_eq_tdiv (a b : Int) : quotient a b = a.tdiv b := by
  unfold quotient
  cases a with
  | ofNat m =>
      have hm : ¬(Int.ofNat m < 0) := Int.not_lt.mpr (Int.natCast_nonneg m)
      cases b with
      | ofNat n => exact if_pos (iff_of_false hm (Int.not_lt.mpr (Int.natCast_nonneg n)))
      | negSucc n => exact if_neg fun hsame => hm (hsame.mpr (Int.negSucc_lt_zero n))
  | negSucc m =>
      have hm : Int.negSucc m < 0 := Int.negSucc_lt_zero m
      cases b with
      | ofNat n => exact if_neg fun hsame => Int.not_lt.mpr (Int.natCast_nonneg n) (hsame.mp hm)
      | negSucc n => exact if_pos (iff_of_true hm (Int.negSucc_lt_zero n))

theorem wrap_eq_self_iff {n : Int} : wrap n = n ↔ InRange n := by
  constructor
  · intro h
    rw [← h]
    exact inRange_wrap n
  · exact wrap_of_inRange

/-- A divisor of two or more halves what is left at least, and only the least word has a negative that is
not a word. -/
theorem inRange_tdiv_iff {a b : Int} (ha : InRange a) (hb : b ≠ 0) :
    InRange (a.tdiv b) ↔ ¬(a = least ∧ b = -1) := by
  constructor
  · rintro h ⟨rfl, rfl⟩
    exact absurd h (by decide)
  · intro hpair
    have habs : (a.tdiv b).natAbs = a.natAbs / b.natAbs := Int.natAbs_tdiv a b
    unfold InRange least greatest at *
    rcases Nat.lt_or_ge b.natAbs 2 with hone | htwo
    · rcases (by omega : b = 1 ∨ b = -1) with rfl | rfl
      · rwa [Int.tdiv_one]
      · rw [Int.tdiv_neg, Int.tdiv_one]
        omega
    · have hhalf : a.natAbs / b.natAbs ≤ a.natAbs / 2 := Nat.div_le_div_left htwo (by decide)
      omega

/-- Words are divided as words of 64 bits in two's complement. -/
theorem toInt_sdiv {a b : Int} (ha : InRange a) (hb : InRange b) :
    ((BitVec.ofInt 64 a).sdiv (BitVec.ofInt 64 b)).toInt = wrap (a.tdiv b) := by
  have hwords : ∀ n : Int, (BitVec.ofInt 64 n).toInt = wrap n := fun n =>
    (BitVec.toInt_ofInt n).trans (wrap_eq_bmod n).symm
  rw [BitVec.toInt_sdiv, hwords, hwords, wrap_of_inRange ha, wrap_of_inRange hb]
  exact (wrap_eq_bmod _).symm

end Word

/-- The rest that a quotient leaves is smaller than the divisor and has the sign of the dividend. -/
theorem exists_rest (a : Int) {b : Int} (hb : b ≠ 0) :
    ∃ r, a = a.tdiv b * b + r ∧ |r| < |b| ∧ (r = 0 ∨ r.sign = a.sign) := by
  refine ⟨a.tmod b, (Int.tdiv_mul_add_tmod a b).symm, ?_, ?_⟩
  · rw [Int.abs_eq_natAbs, Int.abs_eq_natAbs, Int.natAbs_tmod]
    exact_mod_cast Nat.mod_lt a.natAbs (Int.natAbs_pos.mpr hb)
  · by_cases hdvd : b ∣ a
    · exact Or.inl (Int.tmod_eq_zero_of_dvd hdvd)
    · exact Or.inr ((Int.sign_tmod a b).trans (if_neg hdvd))

/-- **Integers are divided toward zero.** A quotient of words is a division by zero if and only if the
divisor is zero. In all other cases it is the quotient of the words of 64 bits, and for all pairs but one
it is exact: the rest is smaller than the divisor, and zero or of the sign of the dividend. Only the least
word divided by minus one wraps around, to the least word. -/
theorem integers_divided_toward_zero {a b : Int} (ha : Word.InRange a) (hb : Word.InRange b)
    (spot : Int) :
    let outcome := operate (Operator.name ⟨.over, spot⟩) (.integer a) (.integer b)
    ((∃ e, outcome = .error (.error e) ∧ e.cause.kind? = some .divisionByZero) ↔ b = 0) ∧
      (b ≠ 0 → ∃ q, outcome = .ok (.integer q) ∧ Word.InRange q ∧
        q = ((BitVec.ofInt 64 a).sdiv (BitVec.ofInt 64 b)).toInt ∧
        (q = a.tdiv b ↔ ¬(a = Word.least ∧ b = -1)) ∧
        (¬(a = Word.least ∧ b = -1) →
          ∃ r, a = q * b + r ∧ |r| < |b| ∧ (r = 0 ∨ r.sign = a.sign)) ∧
        (a = Word.least ∧ b = -1 → q = Word.least)) := by
  intro outcome
  have hglyph : Glyph.ofText? (Operator.name ⟨.over, spot⟩).text = some .over :=
    Glyph.ofText?_text .over
  by_cases hzero : b = 0
  · have herror : outcome = .error (.ofCause .divisionByZero) := by
      simp only [outcome, operate, Operands.of, hglyph, Glyph.onIntegers?, if_pos hzero]
    exact ⟨iff_of_true ⟨_, herror, rfl⟩ hzero, fun hne => absurd hzero hne⟩
  · have hvalue : outcome = .ok (.integer (Word.wrap (a.tdiv b))) := by
      simp only [outcome, operate, Operands.of, hglyph, Glyph.onIntegers?, if_neg hzero,
        Word.quotient_eq_tdiv]
    have hexact : Word.wrap (a.tdiv b) = a.tdiv b ↔ ¬(a = Word.least ∧ b = -1) :=
      Word.wrap_eq_self_iff.trans (Word.inRange_tdiv_iff ha hzero)
    refine ⟨iff_of_false ?_ hzero, fun _ => ⟨_, hvalue, Word.inRange_wrap _,
      (Word.toInt_sdiv ha hb).symm, hexact, fun hpair => ?_, ?_⟩⟩
    · rintro ⟨e, herror, -⟩
      rw [hvalue] at herror
      cases herror
    · rw [hexact.mpr hpair]
      exact exists_rest a hzero
    · rintro ⟨rfl, rfl⟩
      decide

/-- The least word by minus one wraps around, and a negative quotient is cut off toward zero. -/
theorem integers_divided_toward_zero_least :
    Word.InRange Word.least ∧ Word.InRange (-1) ∧ Word.InRange 2 ∧
      operate ⟨"/", 1⟩ (.integer Word.least) (.integer (-1)) = .ok (.integer Word.least) ∧
      ∃ q r, operate ⟨"/", 1⟩ (.integer (-7)) (.integer 2) = .ok (.integer q) ∧
        -7 = q * 2 + r ∧ |r| < 2 ∧ (r = 0 ∨ r.sign = -1) := by
  have hleast : Word.InRange Word.least := by decide
  have hminus : Word.InRange (-1) := by decide
  have htwo : Word.InRange 2 := by decide
  obtain ⟨-, hwraps⟩ := integers_divided_toward_zero hleast hminus 1
  obtain ⟨q, hq, -, -, -, -, hpair⟩ := hwraps (by decide)
  obtain ⟨-, hcut⟩ := integers_divided_toward_zero (by decide : Word.InRange (-7)) htwo 1
  obtain ⟨q', hq', -, -, -, hrest, -⟩ := hcut (by decide)
  obtain ⟨r, hr, hlt, hsign⟩ := hrest (by decide)
  rw [hpair ⟨rfl, rfl⟩] at hq
  exact ⟨hleast, hminus, htwo, hq, q', r, hq', hr, hlt, hsign⟩

end StraightLine
