import StraightLine.Proofs.Double.Shortest
import StraightLine.Proofs.Evaluation.DecimalLiteral

/-!
Operations with a decimal among the operands. An integer beside it is promoted to the double that its
text denotes with a point behind it, and every operation on doubles has a double as its value: a quotient
by zero too, whose sign comes from both operands.
-/

namespace StraightLine

open Double

/-! ### The double of an integer -/

theorem Literal.decimal?_integerText (i : Int) :
    decimal? ((Value.integer i).written ++ ".") = some (.ofInt i) := by
  have hwritten : ((Value.integer i).written ++ ".").toList =
      Text.minus (i < 0) ++ (Nat.toDigits 10 i.natAbs ++ ['.']) := by
    rw [String.toList_append, ← List.append_assoc]
    exact congrArg (· ++ ['.']) String.toList_ofList
  have hparts : parts? ((Value.integer i).written ++ ".").toList =
      some ⟨decide (i < 0), Nat.toDigits 10 i.natAbs, []⟩ := by
    rw [hwritten]
    refine Numeral.parts?_pointed (Text.minus_mem_signs _) Text.isDigit_of_mem_toDigits
      (fun c hc => by cases hc) ?_
    rw [List.append_nil]
    exact Nat.toDigits_ne_nil
  rw [decimal?, hparts, Option.map_some, Decimal.toDouble]
  dsimp only
  rw [List.append_nil, Text.digitsValue_toDigits]
  rfl

namespace Double

theorem isNearest_ofInt_iff (i : Int) {y : Double} :
    IsNearest (i < 0) (i.natAbs * one : Nat) y ↔ y = ofInt i := by
  have hnearest : IsNearest (i < 0) ((i.natAbs * one : Nat) / (1 : Nat)) y ↔ y = ofInt i :=
    isNearest_iff Nat.one_pos
  rwa [Nat.cast_one, div_one] at hnearest

theorem roundUnits_eq_zero_iff {units : Nat} : roundUnits units 1 = 0 ↔ units = 0 := by
  constructor
  · intro hzero
    by_contra hne
    have hspacing : spacing units ≤ units :=
      (Nat.pow_le_pow_right (by decide) (Nat.sub_le _ 52)).trans (Nat.log2_self_le hne)
    unfold roundUnits at hzero
    dsimp only at hzero
    rw [Nat.div_one, Nat.one_mul] at hzero
    have hpos : 0 < halfEven units (spacing units) :=
      (Nat.div_pos hspacing (spacing_pos units)).trans_le (le_halfEven _ _)
    exact (Nat.mul_pos hpos (spacing_pos units)).ne' hzero
  · rintro rfl
    exact roundUnits_zero Nat.one_pos

theorem natAbs_lt_overflow {i : Int} (hi : Word.InRange i) : (i.natAbs * one : Nat) < overflow := by
  have hwords : 2 ^ 64 * one < limit := by decide +kernel
  have hsize : 2 * (i.natAbs * one) ≤ 2 ^ 64 * one := by
    unfold Word.InRange Word.least Word.greatest at hi
    rw [← Nat.mul_assoc]
    exact Nat.mul_le_mul_right one (by omega)
  have hlimit : (2 * (i.natAbs * one) : Nat) < (limit : ℚ) := Nat.cast_lt.mpr (hsize.trans_lt hwords)
  have hgreatest : (0 : ℚ) ≤ greatest := Nat.cast_nonneg _
  unfold overflow
  rw [Nat.cast_mul, Nat.cast_ofNat] at hlimit
  linarith

theorem roundUnits_of_le {n : Nat} (h : n ≤ 2 ^ 53) : roundUnits (n * one) 1 = n * one := by
  have hgrid : spacing (n * one) ∣ n * one := by
    unfold one
    -- The power is too large to be computed.
    generalize 1074 = places
    exact spacing_dvd_mul_two_pow h
  have hround := roundUnits_mul_self Nat.one_pos hgrid
  rwa [Nat.mul_one] at hround

/-- Words are too small for an infinite double, and up to 2^53 they are doubles themselves. -/
theorem exists_ofInt_eq_finite {i : Int} (hi : Word.InRange i) :
    ∃ units h, ofInt i = .finite (i < 0) units h ∧
      (i.natAbs ≤ 2 ^ 53 → units = i.natAbs * one) := by
  have hnearest := nearest_roundUnits (i.natAbs * one) Nat.one_pos
  have hlimit : roundUnits (i.natAbs * one) 1 < limit := by
    rw [hnearest.lt_limit_iff, Nat.cast_one, div_one]
    exact natAbs_lt_overflow hi
  exact ⟨_, ⟨hlimit, hnearest.mem⟩, nearest_eq_finite rfl, roundUnits_of_le⟩

end Double

/-- **Integers are promoted as they are written.** For an integer that is a word there is one double that
arithmetic takes for it beside a decimal, and that a decimal literal has whose text is that of the
integer with a point behind it. It is the one nearest to the integer, which is finite, the integer itself
up to 2^53, and a positive zero for zero. -/
theorem integer_promoted_as_written {i : Int} (hi : Word.InRange i) :
    ∃ y : Double,
      (∀ spot scope, evaluate (.literal .decimal ((Value.integer i).written ++ ".") spot) scope =
        ⟨.ok (.decimal y), scope, ""⟩) ∧
      (∀ x, Operands.of (.integer i) (.decimal x) = .decimals y x ∧
        Operands.of (.decimal x) (.integer i) = .decimals x y) ∧
      (∀ op x,
        operate op (.integer i) (.decimal x) = operate op (.decimal y) (.decimal x) ∧
        operate op (.decimal x) (.integer i) = operate op (.decimal x) (.decimal y)) ∧
      (∀ z, IsNearest (i < 0) (i.natAbs * one : Nat) z ↔ z = y) ∧
      (∃ units h, y = .finite (i < 0) units h ∧ (i.natAbs ≤ 2 ^ 53 → units = i.natAbs * one)) ∧
      (i = 0 → y = .zero false) := by
  refine ⟨.ofInt i, fun spot scope => ?_, fun x => ⟨rfl, rfl⟩, fun op x => ⟨rfl, rfl⟩,
    fun z => isNearest_ofInt_iff i, exists_ofInt_eq_finite hi, ?_⟩
  · exact evaluate_decimal_of_some (Literal.decimal?_integerText i) spot scope
  · rintro rfl
    decide +kernel

/-- The greatest word is rounded up to the power of two behind it. -/
theorem integer_promoted_as_written_greatest :
    let power := Double.nearest false (2 ^ 63 * one) 1
    Word.InRange Word.greatest ∧
      evaluate (.literal .decimal "9223372036854775807." 1) .empty =
        ⟨.ok (.decimal power), .empty, ""⟩ ∧
      operate ⟨"-", 2⟩ (.integer Word.greatest) (.decimal power) = .ok (.decimal (.zero false)) := by
  intro power
  have hrange : Word.InRange Word.greatest := by decide
  obtain ⟨y, hliteral, -, hoperate, -, -, -⟩ := integer_promoted_as_written hrange
  have hwritten : (Value.integer Word.greatest).written ++ "." = "9223372036854775807." := by
    decide +kernel
  have hvalue : evaluate (.literal .decimal "9223372036854775807." 1) .empty =
      ⟨.ok (.decimal power), .empty, ""⟩ :=
    evaluate_decimal_of_some (by decide +kernel) 1 .empty
  have hpower : y = power := by
    have hsame := (hliteral 1 .empty).symm.trans (hwritten ▸ hvalue)
    exact Value.decimal.inj (Except.ok.inj (Outcome.mk.inj hsame).1)
  refine ⟨hrange, hvalue, ?_⟩
  rw [(hoperate ⟨"-", 2⟩ power).1, hpower]
  have hdifference : power.sub power = .zero false := by decide +kernel
  exact congrArg (fun z => Except.ok (Value.decimal z)) hdifference

/-! ### Quotients by zero -/

namespace Double

theorem isZero_iff {x : Double} : x.IsZero ↔ ∃ negative, x = zero negative := by
  constructor
  · rintro (h | h)
    · exact ⟨false, h⟩
    · exact ⟨true, h⟩
  · rintro ⟨negative, rfl⟩
    cases negative with
    | false => exact Or.inl rfl
    | true => exact Or.inr rfl

theorem isZero_finite_iff {negative : Bool} {units : Nat} {h : Representable units} :
    (finite negative units h).IsZero ↔ units = 0 := by
  rw [isZero_iff]
  constructor
  · rintro ⟨_, hzero⟩
    exact (Double.finite.inj hzero).2
  · rintro rfl
    exact ⟨negative, rfl⟩

theorem div_zero_of_isZero_or_nan {x : Double} (h : x.IsZero ∨ x = .nan) (negative : Bool) :
    x.div (zero negative) = .nan := by
  rcases h with (rfl | rfl) | rfl <;> rfl

theorem div_zero_of_not {x : Double} (h : ¬(x.IsZero ∨ x = .nan)) (negative : Bool) :
    x.div (zero negative) = .infinite (x.isNegative != negative) := by
  cases x with
  | nan => exact absurd (Or.inr rfl) h
  | infinite _ => rfl
  | finite _ units _ =>
      have hunits : units ≠ 0 := fun hzero => h (Or.inl (isZero_finite_iff.mpr hzero))
      simp only [div, zero, if_true, if_neg hunits, isNegative]

/-- An infinity with one sign times a number with another is infinite with the sign of the product. -/
theorem copySign_mul_copySign (x y : Double) :
    (copySign (.infinite false) x).mul (copySign (ofInt 1) y) =
      .infinite (x.isNegative != y.isNegative) := by
  obtain ⟨units, h, hunit, hexact⟩ := exists_ofInt_eq_finite (by decide : Word.InRange 1)
  have hunits : units ≠ 0 := by
    rw [hexact (by decide), Int.natAbs_one, Nat.one_mul]
    exact Double.one_pos.ne'
  rw [hunit, copySign, copySign, mul, if_neg hunits]

/-- **The quotients by zero are those of division.** -/
theorem quotient_eq_div (x y : Double) : x.quotient y = x.div y := by
  unfold quotient
  split
  · rename_i hy
    obtain ⟨negative, rfl⟩ := isZero_iff.mp hy
    split
    · rename_i hx
      exact (div_zero_of_isZero_or_nan hx negative).symm
    · rename_i hx
      rw [div_zero_of_not hx, copySign_mul_copySign]
      rfl
  · rfl

theorem isNegative_nearest (negative : Bool) (num den : Nat) :
    (nearest negative num den).isNegative = negative := by
  unfold nearest
  split <;> rfl

theorem nearest_ne_nan (negative : Bool) (num den : Nat) : nearest negative num den ≠ .nan := by
  unfold nearest
  split <;> exact Double.noConfusion

theorem isZero_ofInt_iff {i : Int} : (ofInt i).IsZero ↔ i = 0 := by
  unfold ofInt nearest
  split
  · refine isZero_finite_iff.trans ?_
    rw [roundUnits_eq_zero_iff, Nat.mul_eq_zero, or_iff_left Double.one_pos.ne', Int.natAbs_eq_zero]
  · rename_i hlimit
    constructor
    · rintro (hzero | hzero) <;> cases hzero
    · rintro rfl
      exact absurd (by decide +kernel) hlimit

end Double

namespace Value

/-- Integers and decimals. -/
def IsNumber (v : Value) : Prop :=
  v.kind? = some .integer ∨ v.kind? = some .decimal

/-- The integer zero, and the decimal zeros of either sign. -/
def IsZero (v : Value) : Prop :=
  v = .integer 0 ∨ ∃ negative, v = .decimal (.zero negative)

/-- Whether the sign of a number is a minus. The integer zero counts as positive. -/
def isNegative : Value → Bool
  | .integer n => n < 0
  | .decimal x => x.isNegative
  | _ => false

/-- The double that stands for a number beside a decimal. -/
inductive Promotes : Value → Double → Prop where
  | integer (n : Int) : Promotes (.integer n) (.ofInt n)
  | decimal (x : Double) : Promotes (.decimal x) x

theorem IsNumber.exists_promotes {v : Value} (h : v.IsNumber) : ∃ x, v.Promotes x := by
  cases v with
  | integer n => exact ⟨_, .integer n⟩
  | decimal x => exact ⟨_, .decimal x⟩
  | unit | text _ | declared _ _ _ => rcases h with h | h <;> cases h

namespace Promotes

variable {v : Value} {x : Double} (h : v.Promotes x)

include h

theorem isZero_iff : v.IsZero ↔ x.IsZero := by
  cases h with
  | integer n =>
      rw [isZero_ofInt_iff]
      constructor
      · rintro (hn | ⟨_, hn⟩)
        · exact Value.integer.inj hn
        · cases hn
      · rintro rfl
        exact Or.inl rfl
  | decimal x =>
      rw [Double.isZero_iff]
      constructor
      · rintro (hx | ⟨negative, hx⟩)
        · cases hx
        · exact ⟨negative, Value.decimal.inj hx⟩
      · rintro ⟨negative, rfl⟩
        exact Or.inr ⟨negative, rfl⟩

theorem unique {y : Double} (h' : v.Promotes y) : y = x := by
  cases h with
  | integer n | decimal x =>
      cases h'
      rfl

theorem eq_nan_iff : v = .decimal .nan ↔ x = .nan := by
  cases h with
  | integer n => exact iff_of_false (fun hn => by cases hn) (nearest_ne_nan _ _ _)
  | decimal x => exact ⟨Value.decimal.inj, congrArg Value.decimal⟩

theorem isNegative_eq : v.isNegative = x.isNegative := by
  cases h with
  | integer n => exact (isNegative_nearest _ _ _).symm
  | decimal x => rfl

end Promotes

end Value

theorem Operands.of_promotes {a b : Value} {x y : Double} (ha : a.Promotes x) (hb : b.Promotes y)
    (hdecimal : a.kind? = some .decimal ∨ b.kind? = some .decimal) :
    Operands.of a b = .decimals x y := by
  cases ha with
  | decimal x => cases hb <;> rfl
  | integer n =>
      cases hb with
      | decimal y => rfl
      | integer m => rcases hdecimal with h | h <;> cases h

/-- **Decimal arithmetic never fails.** An operation on two numbers of which one at least is a decimal has
a decimal as its value. A quotient by zero, be it an integer or a decimal of either sign, is not a number
if and only if the dividend is a zero or not a number itself; otherwise it is infinite, and negative just
where the signs of dividend and divisor differ. This is how doubles are divided. -/
theorem decimal_operation_total {a b : Value} (ha : a.IsNumber) (hb : b.IsNumber)
    (hdecimal : a.kind? = some .decimal ∨ b.kind? = some .decimal) (op : Operator) :
    ∃ z, operate op.name a b = .ok (.decimal z) ∧
      (op.glyph = .over → b.IsZero →
        (z = .nan ↔ a.IsZero ∨ a = .decimal .nan) ∧
        (z ≠ .nan → z = .infinite (a.isNegative != b.isNegative)) ∧
        ∀ x y, a.Promotes x → b.Promotes y → z = x.div y) := by
  obtain ⟨x, hx⟩ := ha.exists_promotes
  obtain ⟨y, hy⟩ := hb.exists_promotes
  have hglyph : Glyph.ofText? op.name.text = some op.glyph := Glyph.ofText?_text op.glyph
  refine ⟨op.glyph.onDecimals x y, ?_, fun hover hzero => ?_⟩
  · simp only [operate, Operands.of_promotes hx hy hdecimal, hglyph]
  · obtain ⟨negative, rfl⟩ := Double.isZero_iff.mp (hy.isZero_iff.mp hzero)
    have hdivisor : b.isNegative = negative := hy.isNegative_eq
    rw [hover, Glyph.onDecimals, quotient_eq_div, hx.isZero_iff, hx.eq_nan_iff, hx.isNegative_eq,
      hdivisor]
    have hdivision (x' y' : Double) (hx' : a.Promotes x') (hy' : b.Promotes y') :
        x.div (zero negative) = x'.div y' := by
      rw [hx.unique hx', hy.unique hy']
    by_cases h : x.IsZero ∨ x = .nan
    · rw [div_zero_of_isZero_or_nan h] at hdivision ⊢
      exact ⟨iff_of_true rfl h, fun hne => absurd rfl hne, hdivision⟩
    · rw [div_zero_of_not h] at hdivision ⊢
      exact ⟨iff_of_false Double.noConfusion h, fun _ => rfl, hdivision⟩

/-- Minus one divided by the negative zero is infinite and positive, and zero by zero is not a number. -/
theorem decimal_operation_total_zeros :
    let op : Operator := ⟨.over, 1⟩
    let divisor : Value := .decimal (.zero true)
    Value.IsNumber (.integer (-1)) ∧ Value.IsNumber (.integer 0) ∧ divisor.IsNumber ∧
      divisor.kind? = some .decimal ∧ divisor.IsZero ∧
      operate op.name (.integer (-1)) divisor = .ok (.decimal (.infinite false)) ∧
      operate op.name (.integer 0) divisor = .ok (.decimal .nan) := by
  intro op divisor
  have hminus : Value.IsNumber (.integer (-1)) := Or.inl rfl
  have hnone : Value.IsNumber (.integer 0) := Or.inl rfl
  have hdivisor : divisor.IsNumber := Or.inr rfl
  have hzero : divisor.IsZero := Or.inr ⟨true, rfl⟩
  obtain ⟨z, hz, hquotient⟩ := decimal_operation_total hminus hdivisor (Or.inr rfl) op
  obtain ⟨w, hw, hnothing⟩ := decimal_operation_total hnone hdivisor (Or.inr rfl) op
  obtain ⟨hnan, hinfinite, -⟩ := hquotient rfl hzero
  have hz' : z = .infinite false := by
    refine hinfinite fun h => ?_
    rcases hnan.mp h with (h | ⟨_, h⟩) | h
    · exact absurd (Value.integer.inj h) (by decide)
    · cases h
    · cases h
  have hw' : w = .nan := (hnothing rfl hzero).1.mpr (Or.inl (Or.inl rfl))
  rw [hz'] at hz
  rw [hw'] at hw
  exact ⟨hminus, hnone, hdivisor, rfl, hzero, hz, hw⟩

end StraightLine
