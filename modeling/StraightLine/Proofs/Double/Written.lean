import StraightLine.Double.Layout
import StraightLine.Proofs.Double.Shortest
import StraightLine.Proofs.Text.Numeral

/-!
The number that the text of a magnitude denotes. In either notation the text is a numeral with the
digits of the shortest decimal, and the point and the power of ten put them in their places.
-/

namespace StraightLine.Double

/-! ### Digits -/

theorem exists_trimZeros (digits : List Char) :
    ∃ zeros, digits = trimZeros digits ++ List.replicate zeros '0' := by
  have hzeros : ∀ c ∈ (digits.reverse.takeWhile (· == '0')).reverse, c = '0' := by
    intro c hc
    exact beq_iff_eq.mp (List.all_eq_true.mp List.all_takeWhile c (List.mem_reverse.mp hc))
  refine ⟨(digits.reverse.takeWhile (· == '0')).reverse.length, ?_⟩
  rw [← List.eq_replicate_of_mem hzeros, trimZeros, ← List.reverse_append,
    List.takeWhile_append_dropWhile, List.reverse_reverse]

namespace Digits

/-- The number that digits denote. -/
def value (d : Digits) : ℚ :=
  Text.digitsValue d.digits * 10 ^ (d.power + 1 - d.digits.length)

/-- One digit at least, and nothing but digits. -/
structure WellFormed (d : Digits) : Prop where
  digits : ∀ c ∈ d.digits, c.isDigit
  nonempty : d.digits ≠ []

/-- The point may stand anywhere between the digits. -/
theorem take_append_drop (d : Digits) (n : Nat) :
    d.digits.take n ++ d.digits.drop n =
      List.replicate 0 '0' ++ d.digits ++ List.replicate 0 '0' := by
  rw [List.take_append_drop, List.replicate_zero, List.nil_append, List.append_nil]

theorem value_ofDecimal (decimal : Nat) :
    (ofDecimal decimal).value = decimal / (one * decimalUnits : Nat) := by
  obtain ⟨zeros, hzeros⟩ := exists_trimZeros (Nat.toDigits 10 decimal)
  have hlength := congrArg List.length hzeros
  have hvalue := congrArg Text.digitsValue hzeros
  rw [List.length_append, List.length_replicate] at hlength
  rw [Text.digitsValue_toDigits, Text.digitsValue_append_zeros] at hvalue
  have hpower : ((Nat.toDigits 10 decimal).length : Int) - 1 - 1074 + 1 -
      (trimZeros (Nat.toDigits 10 decimal)).length = zeros - (1074 : Nat) := by
    omega
  have hten : (10 : ℚ) ≠ 0 := by norm_num
  unfold value ofDecimal
  dsimp only
  rw [hpower, one_mul_decimalUnits]
  generalize 1074 = places
  generalize Text.digitsValue (trimZeros (Nat.toDigits 10 decimal)) = m at hvalue ⊢
  calc (m : ℚ) * 10 ^ ((zeros : Int) - (places : Int))
      = 10 ^ zeros * m / 10 ^ places := by
        rw [zpow_sub₀ hten, zpow_natCast, zpow_natCast]
        ring
    _ = decimal / (10 ^ places : Nat) := by
        rw [hvalue]
        push_cast
        rfl

theorem WellFormed.ofDecimal {decimal : Nat} (h : decimal ≠ 0) : (ofDecimal decimal).WellFormed := by
  obtain ⟨zeros, hzeros⟩ := exists_trimZeros (Nat.toDigits 10 decimal)
  constructor
  · intro c hc
    have hmem : c ∈ Nat.toDigits 10 decimal := by
      rw [hzeros]
      exact List.mem_append_left _ hc
    exact Text.isDigit_of_mem_toDigits c hmem
  · intro hnil
    have hnil : trimZeros (Nat.toDigits 10 decimal) = [] := hnil
    rw [hnil, List.nil_append] at hzeros
    apply h
    calc decimal = Text.digitsValue (Nat.toDigits 10 decimal) :=
          (Text.digitsValue_toDigits decimal).symm
      _ = 0 := by rw [hzeros, Text.digitsValue_zeros]

end Digits

/-! ### Layouts -/

/-- That texts in a layout can be read: the mark is no character of a number without a power, and
what ends an integral number is at most a point with zeros behind it. -/
structure Layout.Readable (layout : Layout) : Prop where
  mark : layout.exponentMark.isDigit = false ∧ layout.exponentMark ≠ '.' ∧
    layout.exponentMark ≠ '-'
  integralEnd : ∃ zeros, layout.integralEnd = Numeral.pointed [] (List.replicate zeros '0')

/-- That a text reads as a numeral of a sign and a magnitude. -/
structure Reads (mark : Char) (text : List Char) (negative : Bool) (magnitude : ℚ) : Prop where
  negative : (Numeral.ofText mark text).negative = negative
  wellFormed : (Numeral.ofText mark text).WellFormed
  value : (Numeral.ofText mark text).value = magnitude

section Notations

variable {layout : Layout} (hlayout : layout.Readable) (negative : Bool) {d : Digits}
  (hd : d.WellFormed)

include hlayout hd

/-- A text with the digits reads as their number, if the zeros around them, the place of the point
and the power behind the mark together make up the power of the digits. -/
theorem reads_of_digits (tail : List Char) {whole fraction : List Char} {front back : Nat}
    (hdigits : whole ++ fraction =
      List.replicate front '0' ++ d.digits ++ List.replicate back '0')
    (htail : ∀ c ∈ tail.head?, c = layout.exponentMark)
    (hpower : d.power + 1 - d.digits.length =
      back + (Text.readInteger (tail.drop 1)).getD 0 - fraction.length) :
    Reads layout.exponentMark (Text.minus negative ++ Numeral.pointed whole fraction ++ tail)
      negative d.value := by
  have hn : Numeral.WellFormed
      ⟨negative, whole, fraction, (Text.readInteger (tail.drop 1)).getD 0⟩ :=
    Numeral.wellFormed_of_digits hdigits hd.digits hd.nonempty
  have hread := Numeral.ofText_pointed negative tail hlayout.mark hn.whole hn.fraction htail
  constructor
  · rw [hread]
  · rw [hread]
    exact hn
  · rw [hread]
    exact Numeral.value_of_digits hdigits hpower

/-- The same of a text without a mark. -/
theorem reads_of_digits_in_place {whole fraction : List Char} {front back : Nat}
    (hdigits : whole ++ fraction =
      List.replicate front '0' ++ d.digits ++ List.replicate back '0')
    (hpower : d.power + 1 - d.digits.length = (back : Int) - fraction.length) :
    Reads layout.exponentMark (Text.minus negative ++ Numeral.pointed whole fraction)
      negative d.value := by
  have hnone : (Text.readInteger (([] : List Char).drop 1)).getD 0 = 0 := rfl
  have hpower : d.power + 1 - d.digits.length =
      back + (Text.readInteger (([] : List Char).drop 1)).getD 0 - fraction.length := by
    rw [hnone, Int.add_zero, hpower]
  have hread := reads_of_digits hlayout negative hd [] hdigits (fun c hc => by cases hc) hpower
  rw [List.append_nil] at hread
  exact hread

theorem reads_positional : Reads layout.exponentMark
    (Text.minus negative ++ positional layout d) negative d.value := by
  obtain ⟨zeros, hzeros⟩ := hlayout.integralEnd
  unfold positional
  by_cases hpower : d.power < 0
  · rw [if_pos hpower]
    generalize hfill : d.power.natAbs - 1 = fill
    have hne : List.replicate fill '0' ++ d.digits ≠ [] :=
      fun h => hd.nonempty (List.append_eq_nil_iff.mp h).2
    have hdigits : ['0'] ++ (List.replicate fill '0' ++ d.digits) =
        List.replicate (fill + 1) '0' ++ d.digits ++ List.replicate 0 '0' := by
      rw [List.replicate_succ, List.replicate_zero, List.append_nil]
      rfl
    have htext : '0' :: '.' :: (List.replicate fill '0' ++ d.digits) =
        Numeral.pointed ['0'] (List.replicate fill '0' ++ d.digits) :=
      (Numeral.pointed_of_ne_nil ['0'] hne).symm
    rw [htext]
    refine reads_of_digits_in_place hlayout negative hd hdigits ?_
    rw [List.length_append, List.length_replicate]
    omega
  · rw [if_neg hpower]
    dsimp only
    by_cases hwhole : d.digits.length ≤ d.power.toNat + 1
    · rw [if_pos hwhole]
      generalize hfill : d.power.toNat + 1 - d.digits.length = fill
      have hdigits : d.digits ++ List.replicate fill '0' ++ List.replicate zeros '0' =
          List.replicate 0 '0' ++ d.digits ++ List.replicate (fill + zeros) '0' := by
        rw [List.append_assoc, List.replicate_append_replicate]
        rfl
      have htext : d.digits ++ List.replicate fill '0' ++ layout.integralEnd =
          Numeral.pointed (d.digits ++ List.replicate fill '0') (List.replicate zeros '0') := by
        rw [hzeros]
        rfl
      rw [htext]
      refine reads_of_digits_in_place hlayout negative hd hdigits ?_
      rw [List.length_replicate]
      omega
    · rw [if_neg hwhole]
      have hne : d.digits.drop (d.power.toNat + 1) ≠ [] := by
        rw [← List.length_pos_iff, List.length_drop]
        omega
      rw [← Numeral.pointed_of_ne_nil _ hne]
      refine reads_of_digits_in_place hlayout negative hd (d.take_append_drop _) ?_
      rw [List.length_drop]
      omega

theorem reads_scientific : Reads layout.exponentMark
    (Text.minus negative ++ scientific layout d) negative d.value := by
  have hlength : 0 < d.digits.length := List.length_pos_iff.mpr hd.nonempty
  have hexponent : Text.readInteger (exponentText d.power) = some d.power :=
    Text.readInteger_padded d.power _
  have hpower : d.power + 1 - d.digits.length = (0 : Nat) +
      (Text.readInteger ((layout.exponentMark :: exponentText d.power).drop 1)).getD 0 -
        (d.digits.drop 1).length := by
    rw [List.drop_one, List.tail_cons, hexponent, List.length_drop, Option.getD_some]
    omega
  have hread := reads_of_digits hlayout negative hd (layout.exponentMark :: exponentText d.power)
    (d.take_append_drop 1) (fun c hc => (Option.mem_some.mp hc).symm) hpower
  rw [List.append_assoc] at hread
  exact hread

end Notations

variable {layout : Layout} (hlayout : layout.Readable) (negative : Bool)

include hlayout in
theorem reads_zero :
    Reads layout.exponentMark (Text.minus negative ++ '0' :: layout.integralEnd) negative 0 := by
  obtain ⟨zeros, hzeros⟩ := hlayout.integralEnd
  have hd : Digits.WellFormed ⟨['0'], 0⟩ :=
    ⟨Text.isDigit_of_mem_zeros (n := 1), List.cons_ne_nil _ _⟩
  have hvalue : Digits.value ⟨['0'], 0⟩ = 0 := zero_mul _
  have hdigits : ['0'] ++ List.replicate zeros '0' =
      List.replicate 0 '0' ++ ['0'] ++ List.replicate zeros '0' := rfl
  have hread := reads_of_digits_in_place hlayout negative hd hdigits (by
    rw [List.length_replicate, Int.sub_self]
    rfl)
  rw [hvalue] at hread
  rw [hzeros]
  exact hread

include hlayout in
/-- **The text of a magnitude denotes its shortest decimal.** -/
theorem reads_magnitudeText {units : Nat} (h : spacing units ∣ units) :
    Reads layout.exponentMark (Text.minus negative ++ magnitudeText layout units) negative
      (shortest units / (one * decimalUnits : Nat)) := by
  unfold magnitudeText
  by_cases hunits : units = 0
  · have hzero : ((shortest units : Nat) : ℚ) / (one * decimalUnits : Nat) = 0 := by
      rw [hunits, shortest_zero, Nat.cast_zero, zero_div]
    rw [if_pos hunits, hzero]
    exact reads_zero hlayout negative
  · have hd := Digits.WellFormed.ofDecimal (shortest_ne_zero h hunits)
    rw [if_neg hunits, ← Digits.value_ofDecimal]
    dsimp only
    split
    · exact reads_positional hlayout negative hd
    · exact reads_scientific hlayout negative hd

end StraightLine.Double
