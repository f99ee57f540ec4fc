import StraightLine.Proofs.Double.Nearest
import StraightLine.Proofs.Evaluation.Leaves
import StraightLine.Proofs.Text.Numeral

/-!
Decimal literals. They are digits around a point behind at most one sign, and nothing else; and each
has the double nearest to the number that is written, whatever the number of its digits.
-/

namespace StraightLine

namespace Literal

/-- How decimal numerals are written: a sign or none, and ASCII digits, one at least, before and
behind the one point. -/
structure Decimal.Spells (d : Decimal) (written : List Char) : Prop where
  spelling : ∃ sign ∈ Text.signs d.negative, written = sign ++ (d.whole ++ '.' :: d.fraction)
  whole : ∀ c ∈ d.whole, c.isDigit
  fraction : ∀ c ∈ d.fraction, c.isDigit
  nonempty : d.whole ++ d.fraction ≠ []

/-- The magnitude that a decimal numeral denotes. -/
def Decimal.magnitude (d : Decimal) : ℚ :=
  Text.digitsValue d.whole + Text.digitsValue d.fraction / 10 ^ d.fraction.length

theorem Decimal.spells_of_parts? {written : List Char} {d : Decimal} (h : parts? written = some d) :
    d.Spells written := by
  obtain ⟨sign, hsign, hwritten⟩ := Text.splitSign_spec written
  unfold parts? at h
  dsimp only at h
  generalize (Text.splitSign written).1 = negative at hsign h
  generalize (Text.splitSign written).2 = body at hwritten h
  split at h
  · rename_i fraction hdrop
    split at h
    · rename_i hdigits
      cases h
      rw [Bool.and_eq_true, List.all_eq_true, Bool.not_eq_true', Bool.and_eq_false_iff,
        List.isEmpty_eq_false_iff, List.isEmpty_eq_false_iff] at hdigits
      have hbody : body = body.takeWhile Char.isDigit ++ '.' :: fraction := by
        rw [← hdrop, List.takeWhile_append_dropWhile]
      refine ⟨⟨sign, hsign, ?_⟩, List.all_eq_true.mp List.all_takeWhile, hdigits.1, ?_⟩
      · rw [hwritten]
        exact congrArg (sign ++ ·) hbody
      · rw [ne_eq, List.append_eq_nil_iff, not_and_or]
        exact hdigits.2
    · cases h
  · cases h

/-- **Exactly the numerals are read,** each in one way. -/
theorem parts?_eq_some_iff {written : List Char} {d : Decimal} :
    parts? written = some d ↔ d.Spells written := by
  refine ⟨Decimal.spells_of_parts?, fun h => ?_⟩
  obtain ⟨⟨sign, hsign, rfl⟩, hwhole, hfraction, hne⟩ := h
  exact Numeral.parts?_pointed hsign hwhole hfraction hne

theorem decimal?_of_spells {written : String} {d : Decimal} (h : d.Spells written.toList) :
    decimal? written = some d.toDouble := by
  rw [decimal?, parts?_eq_some_iff.mpr h]
  rfl

theorem decimal?_eq_none_iff {written : String} :
    decimal? written = none ↔ ¬∃ d : Decimal, d.Spells written.toList := by
  rw [decimal?, Option.map_eq_none_iff, Option.eq_none_iff_forall_ne_some, not_exists]
  simp only [ne_eq, parts?_eq_some_iff]

theorem Decimal.isNearest_iff (d : Decimal) (y : Double) :
    Double.IsNearest d.negative (d.magnitude * Double.one) y ↔ y = d.toDouble := by
  have hmagnitude : d.magnitude * Double.one =
      ((Text.digitsValue (d.whole ++ d.fraction) * Double.one : Nat) : ℚ) /
        (10 ^ d.fraction.length : Nat) := by
    rw [magnitude, Text.digitsValue_append]
    -- The units are too many to be counted.
    generalize Double.one = units
    push_cast
    field_simp
  rw [hmagnitude]
  exact Double.isNearest_iff (Nat.pow_pos (by decide))

end Literal

theorem evaluate_decimal_of_some {written : String} {x : Double}
    (h : Literal.decimal? written = some x) (spot : Int) (scope : Scope) :
    evaluate (.literal .decimal written spot) scope = ⟨.ok (.decimal x), scope, ""⟩ :=
  evaluate_literal_of_ok (by rw [Literal.value, h]) spot scope

theorem evaluate_decimal_of_none {written : String} (h : Literal.decimal? written = none)
    (spot : Int) (scope : Scope) :
    evaluate (.literal .decimal written spot) scope =
      ⟨.error (.error ⟨.notDecimal written, some (.literal .decimal written spot)⟩), scope, ""⟩ :=
  evaluate_literal_of_cause (by rw [Literal.value, h]) spot scope

/-- **Decimal literals are read exactly.** A decimal literal has a value if and only if its text is a
numeral, and without effects: the double nearest to the magnitude that the numeral denotes, with the
numeral's sign. Any other text is malformed, and the literal is to blame. -/
theorem evaluate_decimal_literal (written : String) (spot : Int) (scope : Scope) :
    let literal := Tree.literal .decimal written spot
    let outcome := evaluate literal scope
    outcome.scope = scope ∧ outcome.output = "" ∧
      ((∃ value, outcome.result = .ok value) ↔ ∃ d : Literal.Decimal, d.Spells written.toList) ∧
      (∀ d : Literal.Decimal, d.Spells written.toList →
        ∃ x, outcome.result = .ok (.decimal x) ∧
          ∀ y, Double.IsNearest d.negative (d.magnitude * Double.one) y ↔ y = x) ∧
      ((¬∃ d : Literal.Decimal, d.Spells written.toList) →
        ∃ e, outcome.result = .error (.error e) ∧ e.cause = .notDecimal written ∧
          e.cause.kind? = some .malformedLiteral ∧ e.guilty = some literal) := by
  intro literal outcome
  by_cases hspells : ∃ d : Literal.Decimal, d.Spells written.toList
  · have hvalue : ∀ d : Literal.Decimal, d.Spells written.toList →
        outcome = ⟨.ok (.decimal d.toDouble), scope, ""⟩ :=
      fun d hd => evaluate_decimal_of_some (Literal.decimal?_of_spells hd) spot scope
    obtain ⟨d, hd⟩ := hspells
    rw [hvalue d hd]
    refine ⟨rfl, rfl, iff_of_true ⟨_, rfl⟩ ⟨d, hd⟩, fun d' hd' => ?_, fun hno => absurd ⟨d, hd⟩ hno⟩
    rw [← hvalue d hd, hvalue d' hd']
    exact ⟨_, rfl, d'.isNearest_iff⟩
  · have herror : outcome = ⟨.error (.error ⟨.notDecimal written, some literal⟩), scope, ""⟩ :=
      evaluate_decimal_of_none (Literal.decimal?_eq_none_iff.mpr hspells) spot scope
    rw [herror]
    refine ⟨rfl, rfl, iff_of_false ?_ hspells, fun d hd => absurd ⟨d, hd⟩ hspells, fun _ => ?_⟩
    · rintro ⟨value, hvalue⟩
      cases hvalue
    · exact ⟨_, rfl, rfl, rfl, rfl⟩

-- Exponents, underscores, blanks, line ends, further points, names and digits of other scripts.
example : ["1e5", "1_000.5", " 3.2 ", "3.2\n", "4.2.1", ".", "nan", "infinity", "٣.٢"].map
    Literal.decimal? = List.replicate 9 none := by
  decide +kernel

/-- Halfway between two doubles the even one is nearest; an underscore is no digit. -/
theorem evaluate_decimal_literal_halfway :
    let halfway : Literal.Decimal := ⟨true, "9007199254740993".toList, []⟩
    let even := Double.nearest true (2 ^ 53 * Double.one) 1
    halfway.Spells "-9007199254740993.".toList ∧
      (evaluate (.literal .decimal "-9007199254740993." 1) .empty).result = .ok (.decimal even) ∧
      Double.IsNearest true (halfway.magnitude * Double.one) even ∧
      (¬∃ d : Literal.Decimal, d.Spells "1_000.5".toList) ∧
      ∃ e, (evaluate (.literal .decimal "1_000.5" 2) .empty).result = .error (.error e) ∧
        e.cause.kind? = some .malformedLiteral := by
  intro halfway even
  have hspells : halfway.Spells "-9007199254740993.".toList :=
    Literal.Decimal.spells_of_parts? (by decide +kernel)
  have hnumeral : ¬∃ d : Literal.Decimal, d.Spells "1_000.5".toList :=
    Literal.decimal?_eq_none_iff.mp (by decide +kernel)
  have hvalue : (evaluate (.literal .decimal "-9007199254740993." 1) .empty).result =
      .ok (.decimal even) := by
    rw [evaluate_decimal_of_some (x := even) (by decide +kernel)]
  obtain ⟨-, -, -, hread, -⟩ := evaluate_decimal_literal "-9007199254740993." 1 .empty
  obtain ⟨-, -, -, -, hrefused⟩ := evaluate_decimal_literal "1_000.5" 2 .empty
  obtain ⟨x, hx, hnearest⟩ := hread halfway hspells
  obtain ⟨e, he, -, hkind, -⟩ := hrefused hnumeral
  have heven : even = x := Value.decimal.inj (Except.ok.inj (hvalue.symm.trans hx))
  exact ⟨hspells, hvalue, (hnearest even).mpr heven, hnumeral, e, he, hkind⟩

end StraightLine
