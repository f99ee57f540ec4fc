import StraightLine.Evaluation.Evaluate
import StraightLine.Proofs.Double.Written

/-!
Decimal texts lose nothing. A decimal literal with the text of a finite double evaluates to that
double, and texts tell all doubles that are numbers apart.
-/

namespace StraightLine

open Double

theorem Value.readable_decimalLayout : Value.decimalLayout.Readable :=
  ⟨by decide, 0, rfl⟩

/-- The text of a literal for a decimal text: positional, and always with a point. -/
def Literal.ofDecimalText (text : String) : String :=
  String.ofList (Numeral.ofText 'E' text.toList).plain

/-- The point moves over the digits, behind zeros where there are none left. -/
example : Literal.ofDecimalText "-1.5E-05" = "-0.000015" ∧
    Literal.ofDecimalText "1.25E+15" = "1250000000000000." ∧
    Literal.ofDecimalText "-12.5" = "-12.5" ∧ Literal.ofDecimalText "7" = "7." := by
  decide +kernel

/-- A literal denotes the double nearest to its numeral. -/
theorem Numeral.decimal?_plain {n : Numeral} (hn : n.WellFormed) {num den : Nat} (hden : 0 < den)
    (h : n.value * one = num / den) :
    Literal.decimal? (String.ofList n.plain) = some (nearest n.negative num den) := by
  have hshift := hn.shift
  have hpos : 0 < 10 ^ n.shift.fraction.length := Nat.pow_pos (by decide)
  have hparts : Literal.parts? n.plain = some ⟨n.negative, n.shift.whole, n.shift.fraction⟩ :=
    parts?_pointed (Text.minus_mem_signs n.negative) hshift.whole hshift.fraction hshift.nonempty
  rw [Literal.decimal?, String.toList_ofList, hparts]
  refine congrArg some (nearest_eq_of_div_eq n.negative hpos hden ?_)
  have hpower : n.shift.power - (n.shift.fraction.length : Int) = -n.shift.fraction.length :=
    Int.zero_sub _
  rw [← h, ← value_shift, value, hpower, zpow_neg, zpow_natCast, Nat.cast_mul, Nat.cast_pow,
    Nat.cast_ofNat]
  ring

theorem Literal.decimal?_ofDecimalText (negative : Bool) (units : Nat) (h : Representable units) :
    decimal? (ofDecimalText (Value.decimalText (.finite negative units h))) =
      some (.finite negative units h) := by
  have hread := reads_magnitudeText Value.readable_decimalLayout negative h.2
  generalize htext : Text.minus negative ++ magnitudeText Value.decimalLayout units = text at hread
  change Reads 'E' text negative _ at hread
  have hone : (one : ℚ) ≠ 0 := Nat.cast_ne_zero.mpr (Nat.ne_of_gt Double.one_pos)
  have hvalue : (Numeral.ofText 'E' text).value * one = shortest units / decimalUnits := by
    calc (Numeral.ofText 'E' text).value * one
        = shortest units / (one * decimalUnits : Nat) * one := by rw [hread.value]
      _ = shortest units / decimalUnits := by
        rw [Nat.cast_mul, mul_comm, ← mul_div_assoc, mul_div_mul_left _ _ hone]
  have hnearest := Numeral.decimal?_plain hread.wellFormed decimalUnits_pos hvalue
  rw [hread.negative, nearest_eq_finite (readsBack_shortest h.2)] at hnearest
  rw [ofDecimalText, Value.decimalText, write, htext, String.toList_ofList]
  exact hnearest

theorem Literal.decimal?_ofDecimalText_infinite (negative : Bool) :
    decimal? (ofDecimalText (Value.decimalText (.infinite negative))) = none := by
  cases negative <;> decide +kernel

/-- **Decimal texts are lossless.** A decimal literal with the text of a finite double evaluates to
that very double, the sign of zero included, and two doubles that are numbers have the same text
only if they are the same. -/
theorem decimalText_lossless :
    (∀ (negative : Bool) (units : Nat) (h : Representable units) (spot : Int) (scope : Scope),
      evaluate (.literal .decimal
          (Literal.ofDecimalText (Value.decimalText (.finite negative units h))) spot) scope =
        ⟨.ok (.decimal (.finite negative units h)), scope, ""⟩) ∧
      ∀ x y : Double, x ≠ .nan → y ≠ .nan → Value.decimalText x = Value.decimalText y → x = y := by
  constructor
  · intro negative units h spot scope
    have hvalue : Literal.value .decimal
        (Literal.ofDecimalText (Value.decimalText (.finite negative units h))) =
          .ok (.decimal (.finite negative units h)) := by
      rw [Literal.value, Literal.decimal?_ofDecimalText]
    rw [evaluate, hvalue]
    rfl
  · intro x y hx hy htext
    have hliteral := congrArg (fun text => Literal.decimal? (Literal.ofDecimalText text)) htext
    beta_reduce at hliteral
    cases x with
    | nan => exact absurd rfl hx
    | finite negative units h =>
        rw [Literal.decimal?_ofDecimalText] at hliteral
        cases y with
        | nan => exact absurd rfl hy
        | finite negative' units' h' =>
            rw [Literal.decimal?_ofDecimalText] at hliteral
            exact Option.some.inj hliteral
        | infinite negative' =>
            rw [Literal.decimal?_ofDecimalText_infinite] at hliteral
            cases hliteral
    | infinite negative =>
        rw [Literal.decimal?_ofDecimalText_infinite] at hliteral
        cases y with
        | nan => exact absurd rfl hy
        | finite negative' units' h' =>
            rw [Literal.decimal?_ofDecimalText] at hliteral
            cases hliteral
        | infinite negative' =>
            cases negative <;> cases negative'
            · rfl
            · exact absurd htext (by decide)
            · exact absurd htext (by decide)
            · rfl

theorem Double.representable_least : Representable 1 := by
  decide +kernel

/-- The least magnitude above zero comes back, and the two zeros have different texts. -/
theorem decimalText_lossless_least :
    Value.decimalText (.finite false 1 representable_least) = "5E-324" ∧
      evaluate (.literal .decimal (Literal.ofDecimalText "5E-324") 1) .empty =
        ⟨.ok (.decimal (.finite false 1 representable_least)), .empty, ""⟩ ∧
      zero true ≠ .nan ∧ zero false ≠ .nan ∧
      Value.decimalText (zero true) ≠ Value.decimalText (zero false) := by
  have htext : Value.decimalText (.finite false 1 representable_least) = "5E-324" := by
    decide +kernel
  have hliteral := decimalText_lossless.1 false 1 representable_least 1 .empty
  rw [htext] at hliteral
  refine ⟨htext, hliteral, by decide, by decide, fun hsame => ?_⟩
  have hzero := decimalText_lossless.2 (zero true) (zero false) (by decide) (by decide) hsame
  exact absurd hzero (by decide)

end StraightLine
