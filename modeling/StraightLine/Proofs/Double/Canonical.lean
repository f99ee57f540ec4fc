import StraightLine.Proofs.Double.Lossless
import StraightLine.Proofs.Text.Canonical

/-!
The layout of decimal texts. Which notation a text is in, and where the point and the zeros are in it,
follow from the number that it denotes, so that every number has one text.
-/

namespace StraightLine

open Text

/-! ### Canonical texts -/

/-- That the leading digit of a number counts a power of ten. -/
def LeadsAt (value : ℚ) (power : Int) : Prop :=
  10 ^ power ≤ value ∧ value < 10 ^ (power + 1)

/-- A sign and the digits of an exponent, two at least, and padded to two only. -/
inductive IsExponent (power : Int) : List Char → Prop where
  | mk {digits : List Char} (hdigits : ∀ c ∈ digits, c.isDigit)
      (hvalue : digitsValue digits = power.natAbs) (hlength : 2 ≤ digits.length)
      (hpadding : 2 < digits.length → digits.head? ≠ some '0') :
      IsExponent power ((if power < 0 then '-' else '+') :: digits)

/-- The one text for a magnitude: a zero, or the tight numeral in positional notation, where the leading
digit is not too far from the point, and in scientific notation elsewhere. -/
inductive IsCanonical (value : ℚ) : List Char → Prop where
  | zero (h : value = 0) : IsCanonical value ['0']
  | positional {whole fraction : List Char} {power : Int} (hpower : LeadsAt value power)
      (hrange : -4 ≤ power ∧ power ≤ 14) (htight : Numeral.Tight ⟨false, whole, fraction, 0⟩)
      (hvalue : Numeral.value ⟨false, whole, fraction, 0⟩ = value)
      (hsmall : power < 0 → whole = ['0']) (hintegral : fraction = [] ↔ ∃ n : ℕ, value = n) :
      IsCanonical value (Numeral.pointed whole fraction)
  | scientific {lead : Char} {fraction exponent : List Char} {power : Int}
      (hpower : LeadsAt value power) (hrange : ¬(-4 ≤ power ∧ power ≤ 14)) (hlead : lead ≠ '0')
      (htight : Numeral.Tight ⟨false, [lead], fraction, power⟩)
      (hvalue : Numeral.value ⟨false, [lead], fraction, power⟩ = value)
      (hexponent : IsExponent power exponent) :
      IsCanonical value (Numeral.pointed [lead] fraction ++ 'E' :: exponent)

theorem LeadsAt.pos {value : ℚ} {power : Int} (h : LeadsAt value power) : 0 < value :=
  lt_of_lt_of_le (zpow_pos (by norm_num) power) h.1

theorem LeadsAt.le {value : ℚ} {power power' : Int} (h : LeadsAt value power)
    (h' : LeadsAt value power') : power ≤ power' := by
  have hlt : (10 : ℚ) ^ power < 10 ^ (power' + 1) := lt_of_le_of_lt h.1 h'.2
  exact Int.lt_add_one_iff.mp ((zpow_lt_zpow_iff_right₀ (by norm_num)).mp hlt)

theorem LeadsAt.unique {value : ℚ} {power power' : Int} (h : LeadsAt value power)
    (h' : LeadsAt value power') : power = power' :=
  Int.le_antisymm (h.le h') (h'.le h)

/-- The longer of two exponents is not padded, so that the shorter one cannot denote as much. -/
theorem length_le_of_padding {digits digits' : List Char} (hdigits : ∀ c ∈ digits, c.isDigit)
    (hdigits' : ∀ c ∈ digits', c.isDigit) (hvalue : digitsValue digits = digitsValue digits')
    (hpadding : 2 < digits.length → digits.head? ≠ some '0') (hlength' : 2 ≤ digits'.length) :
    digits.length ≤ digits'.length := by
  by_cases hlong : 2 < digits.length
  · have hlead := leads_of_head? (List.ne_nil_of_length_pos (by omega)) (hpadding hlong)
    exact hlead.length_le hdigits hdigits' (List.ne_nil_of_length_pos (by omega)) hvalue
  · omega

theorem IsExponent.unique {power : Int} {text text' : List Char} (h : IsExponent power text)
    (h' : IsExponent power text') : text = text' := by
  obtain @⟨digits, hdigits, hvalue, hlength, hpadding⟩ := h
  obtain @⟨digits', hdigits', hvalue', hlength', hpadding'⟩ := h'
  have hsame : digitsValue digits = digitsValue digits' := hvalue.trans hvalue'.symm
  have hlengths : digits.length = digits'.length :=
    Nat.le_antisymm (length_le_of_padding hdigits hdigits' hsame hpadding hlength')
      (length_le_of_padding hdigits' hdigits hsame.symm hpadding' hlength)
  rw [eq_of_digitsValue_eq hdigits hdigits' hlengths hsame]

theorem IsCanonical.unique {value : ℚ} {text text' : List Char} (h : IsCanonical value text)
    (h' : IsCanonical value text') : text = text' := by
  -- The power of the leading digit tells the notations apart.
  cases h with
  | zero hzero =>
      cases h' with
      | zero _ => rfl
      | positional hpower _ _ _ _ _ => exact absurd hzero hpower.pos.ne'
      | scientific hpower _ _ _ _ _ => exact absurd hzero hpower.pos.ne'
  | positional hpower hrange htight hvalue _ _ =>
      cases h' with
      | zero hzero => exact absurd hzero hpower.pos.ne'
      | positional _ _ htight' hvalue' _ _ =>
          obtain ⟨hwhole, hfraction⟩ := htight.eq_of_value_eq htight' rfl (hvalue.trans hvalue'.symm)
          dsimp only at hwhole hfraction
          rw [hwhole, hfraction]
      | scientific hpower' hrange' _ _ _ _ =>
          rw [hpower.unique hpower'] at hrange
          exact absurd hrange hrange'
  | scientific hpower hrange _ htight hvalue hexponent =>
      cases h' with
      | zero hzero => exact absurd hzero hpower.pos.ne'
      | positional hpower' hrange' _ _ _ _ =>
          rw [hpower'.unique hpower] at hrange'
          exact absurd hrange' hrange
      | scientific hpower' _ _ htight' hvalue' hexponent' =>
          cases hpower.unique hpower'
          obtain ⟨hwhole, hfraction⟩ := htight.eq_of_value_eq htight' rfl (hvalue.trans hvalue'.symm)
          dsimp only at hwhole hfraction
          rw [hwhole, hfraction, hexponent.unique hexponent']

theorem IsCanonical.isDigit_of_head? {value : ℚ} {text : List Char} (h : IsCanonical value text) :
    ∀ c ∈ text.head?, c.isDigit := by
  intro c hc
  cases h with
  | zero _ =>
      cases hc
      decide
  | @positional whole fraction _ _ _ htight _ _ _ =>
      obtain ⟨lead, rest, hwhole, -⟩ := htight.leads
      dsimp only at hwhole
      have hdigits := htight.whole
      dsimp only at hdigits
      rw [hwhole] at hc hdigits
      cases hc
      exact hdigits c List.mem_cons_self
  | scientific _ _ _ htight _ _ =>
      cases hc
      exact htight.whole c List.mem_cons_self

/-! ### Significant digits -/

namespace Double

open Numeral (pointed)

theorem getLast?_trimZeros (digits : List Char) : (trimZeros digits).getLast? ≠ some '0' := by
  intro h
  rw [trimZeros, List.getLast?_reverse] at h
  have hhead := List.head?_dropWhile_not (· == '0') digits.reverse
  rw [h] at hhead
  cases hhead

namespace Digits

/-- Digits that begin and end with another digit than zero. -/
structure Significant (d : Digits) : Prop extends d.WellFormed where
  leading : d.digits.head? ≠ some '0'
  trailing : d.digits.getLast? ≠ some '0'

theorem Significant.ofDecimal {decimal : Nat} (h : decimal ≠ 0) : (ofDecimal decimal).Significant := by
  have hd := WellFormed.ofDecimal h
  have hne : trimZeros (Nat.toDigits 10 decimal) ≠ [] := hd.nonempty
  refine ⟨hd, ?_, getLast?_trimZeros _⟩
  obtain ⟨zeros, hzeros⟩ := exists_trimZeros (Nat.toDigits 10 decimal)
  have hhead := head?_toDigits_ne h
  rw [hzeros, head?_append_of_ne_nil hne] at hhead
  exact hhead

theorem Significant.exists_cons {d : Digits} (h : d.Significant) :
    ∃ c rest, d.digits = c :: rest ∧ c ≠ '0' := by
  obtain ⟨c, rest, hdigits⟩ := List.exists_cons_of_ne_nil h.nonempty
  refine ⟨c, rest, hdigits, fun hc => h.leading ?_⟩
  rw [hdigits, hc]
  rfl

/-- The power of the digits is that of the leading one. -/
theorem Significant.leadsAt {d : Digits} (h : d.Significant) : LeadsAt d.value d.power := by
  obtain ⟨c, rest, hdigits, hc⟩ := h.exists_cons
  have hten : (10 : ℚ) ≠ 0 := by norm_num
  have hpos : (0 : ℚ) < 10 ^ (d.power + 1 - d.digits.length) := zpow_pos (by norm_num) _
  have hall := h.digits
  have hlower : (10 : ℚ) ^ rest.length ≤ digitsValue d.digits := by
    rw [hdigits] at hall ⊢
    exact_mod_cast pow_le_digitsValue (hall c List.mem_cons_self) hc rest
  have hupper : (digitsValue d.digits : ℚ) < 10 ^ d.digits.length := by
    exact_mod_cast digitsValue_lt hall
  have hlength : d.digits.length = rest.length + 1 := congrArg List.length hdigits
  constructor
  · calc (10 : ℚ) ^ d.power = 10 ^ rest.length * 10 ^ (d.power + 1 - d.digits.length) := by
          rw [← zpow_natCast, ← zpow_add₀ hten]
          congr 1
          omega
      _ ≤ d.value := mul_le_mul_of_nonneg_right hlower hpos.le
  · calc d.value < 10 ^ d.digits.length * 10 ^ (d.power + 1 - d.digits.length) :=
          mul_lt_mul_of_pos_right hupper hpos
      _ = 10 ^ (d.power + 1) := by
        rw [← zpow_natCast, ← zpow_add₀ hten]
        congr 1
        omega

end Digits

/-! ### Notations -/

section Notations

variable {d : Digits} (hd : d.Significant) (layout : Layout)

include hd

/-- In positional notation the zeros fill the places up to the point and no more. -/
theorem exists_positional (hend : layout.integralEnd = []) :
    ∃ whole fraction, positional layout d = pointed whole fraction ∧
      Numeral.Tight ⟨false, whole, fraction, 0⟩ ∧ (d.power < 0 → whole = ['0']) := by
  obtain ⟨c, rest, hdigits, hc⟩ := hd.exists_cons
  unfold positional
  by_cases hpower : d.power < 0
  · rw [if_pos hpower]
    generalize d.power.natAbs - 1 = fill
    have hne : List.replicate fill '0' ++ d.digits ≠ [] :=
      fun h => hd.nonempty (List.append_eq_nil_iff.mp h).2
    refine ⟨['0'], _, (Numeral.pointed_of_ne_nil ['0'] hne).symm, ⟨?_, ?_, ?_⟩, fun _ => rfl⟩
    · have hzeros : ['0'] ++ (List.replicate fill '0' ++ d.digits) =
          List.replicate (fill + 1) '0' ++ d.digits ++ List.replicate 0 '0' := by
        rw [List.replicate_succ, List.replicate_zero, List.append_nil]
        rfl
      exact Numeral.wellFormed_of_digits hzeros hd.digits hd.nonempty
    · exact ⟨'0', [], rfl, fun _ => rfl⟩
    · show (List.replicate fill '0' ++ d.digits).getLast? ≠ some '0'
      rw [getLast?_append_of_ne_nil _ hd.nonempty]
      exact hd.trailing
  · rw [if_neg hpower]
    dsimp only
    by_cases hwhole : d.digits.length ≤ d.power.toNat + 1
    · rw [if_pos hwhole, hend]
      generalize d.power.toNat + 1 - d.digits.length = fill
      refine ⟨d.digits ++ List.replicate fill '0', [], rfl, ⟨?_, ?_, ?_⟩, fun h => absurd h hpower⟩
      · have hzeros : d.digits ++ List.replicate fill '0' ++ [] =
            List.replicate 0 '0' ++ d.digits ++ List.replicate fill '0' := List.append_nil _
        exact Numeral.wellFormed_of_digits hzeros hd.digits hd.nonempty
      · refine ⟨c, rest ++ List.replicate fill '0', ?_, fun h => absurd h hc⟩
        rw [hdigits]
        rfl
      · intro h
        cases h
    · rw [if_neg hwhole]
      have hne : d.digits.drop (d.power.toNat + 1) ≠ [] := by
        rw [← List.length_pos_iff, List.length_drop]
        omega
      refine ⟨_, _, (Numeral.pointed_of_ne_nil _ hne).symm, ⟨?_, ?_, ?_⟩, fun h => absurd h hpower⟩
      · exact Numeral.wellFormed_of_digits (d.take_append_drop _) hd.digits hd.nonempty
      · refine ⟨c, rest.take d.power.toNat, ?_, fun h => absurd h hc⟩
        rw [hdigits]
        rfl
      · show (d.digits.drop (d.power.toNat + 1)).getLast? ≠ some '0'
        rw [List.getLast?_drop, if_neg hwhole]
        exact hd.trailing

theorem exists_scientific : ∃ lead fraction, lead ≠ '0' ∧
    scientific layout d = pointed [lead] fraction ++ layout.exponentMark :: exponentText d.power ∧
      Numeral.Tight ⟨false, [lead], fraction, d.power⟩ := by
  obtain ⟨c, rest, hdigits, hc⟩ := hd.exists_cons
  refine ⟨c, rest, hc, ?_, ?_, ?_, ?_⟩
  · rw [scientific, hdigits]
    rfl
  · have hsplit := d.take_append_drop 1
    rw [hdigits] at hsplit
    have hall := hd.digits
    rw [hdigits] at hall
    exact Numeral.wellFormed_of_digits hsplit hall (List.cons_ne_nil c rest)
  · exact ⟨c, [], rfl, fun _ => rfl⟩
  · intro hlast
    apply hd.trailing
    have hne : rest ≠ [] := by
      rintro rfl
      cases hlast
    have hsplit : d.digits = [c] ++ rest := hdigits
    rw [hsplit, getLast?_append_of_ne_nil _ hne]
    exact hlast

end Notations

theorem isExponent_exponentText (power : Int) : IsExponent power (exponentText power) := by
  unfold exponentText
  have hlength : (List.replicate (2 - (Nat.toDigits 10 power.natAbs).length) '0' ++
      Nat.toDigits 10 power.natAbs).length = max 2 (Nat.toDigits 10 power.natAbs).length := by
    rw [List.length_append, List.length_replicate]
    omega
  refine .mk ?_ ?_ ?_ fun hlong => ?_
  · intro c hc
    rcases List.mem_append.mp hc with hc | hc
    · exact isDigit_of_mem_zeros c hc
    · exact isDigit_of_mem_toDigits c hc
  · rw [digitsValue_zeros_append, digitsValue_toDigits]
  · rw [hlength]
    exact Nat.le_max_left _ _
  · rw [hlength] at hlong
    have hfill : 2 - (Nat.toDigits 10 power.natAbs).length = 0 := by omega
    rw [hfill, List.replicate_zero, List.nil_append]
    apply head?_toDigits_ne
    intro hzero
    rw [hzero] at hlong
    exact absurd hlong (by decide)

/-! ### Decimal texts -/

theorem value_of_reads {mark : Char} (hmark : mark.isDigit = false ∧ mark ≠ '.' ∧ mark ≠ '-')
    {whole fraction : List Char} {power : Int}
    (h : Numeral.WellFormed ⟨false, whole, fraction, power⟩) (tail : List Char)
    (htail : ∀ c ∈ tail.head?, c = mark) (hpower : (readInteger (tail.drop 1)).getD 0 = power)
    {value : ℚ} (hread : Reads mark (pointed whole fraction ++ tail) false value) :
    Numeral.value ⟨false, whole, fraction, power⟩ = value := by
  have htext := Numeral.ofText_pointed false tail hmark h.whole h.fraction htail
  rw [hpower] at htext
  rw [← hread.value, ← htext]
  rfl

/-- **Every magnitude has its canonical text.** -/
theorem isCanonical_magnitudeText {units : Nat} (h : spacing units ∣ units) :
    IsCanonical (shortest units / (one * decimalUnits : Nat))
      (magnitudeText Value.decimalLayout units) := by
  have hmark := Value.readable_decimalLayout.mark
  have hread := reads_magnitudeText Value.readable_decimalLayout false h
  change Reads 'E' (magnitudeText Value.decimalLayout units) false _ at hread
  unfold magnitudeText at hread ⊢
  by_cases hunits : units = 0
  · rw [if_pos hunits]
    refine .zero ?_
    rw [hunits, shortest_zero, Nat.cast_zero, zero_div]
  · rw [if_neg hunits] at hread ⊢
    have hd := Digits.Significant.ofDecimal (shortest_ne_zero h hunits)
    have hpower := hd.leadsAt
    rw [Digits.value_ofDecimal] at hpower
    dsimp only at hread ⊢
    split at hread
    · rename_i hrange
      rw [if_pos hrange]
      obtain ⟨whole, fraction, htext, htight, hsmall⟩ :=
        exists_positional hd Value.decimalLayout rfl
      rw [htext] at hread ⊢
      have hvalue : Numeral.value ⟨false, whole, fraction, 0⟩ = _ :=
        value_of_reads hmark htight.toWellFormed [] (fun c hc => by cases hc) rfl
          (by rwa [List.append_nil])
      refine .positional hpower hrange htight hvalue hsmall ?_
      rw [← hvalue]
      exact htight.fraction_eq_nil_iff rfl
    · rename_i hrange
      rw [if_neg hrange]
      obtain ⟨lead, fraction, hlead, htext, htight⟩ :=
        exists_scientific hd Value.decimalLayout
      rw [htext] at hread ⊢
      refine .scientific hpower hrange hlead htight ?_ (isExponent_exponentText _)
      refine value_of_reads hmark htight.toWellFormed _ ?_ ?_ hread
      · exact fun c hc => (Option.mem_some.mp hc).symm
      · rw [List.drop_one, List.tail_cons, exponentText, readInteger_padded, Option.getD_some]

end Double

theorem Value.readable_recordLayout : Value.recordLayout.Readable :=
  ⟨by decide, 1, rfl⟩

/-- **Decimal texts are exact and canonical.** The text of a finite double and its record denote the same
number, with the sign of the double; the text begins with a minus sign just where the sign is negative.
Behind the sign it is the canonical text of the magnitude, and there is no other. -/
theorem decimalText_canonical (negative : Bool) {units : Nat} (h : Double.Representable units) :
    let x := Double.finite negative units h
    let text := (Value.decimalText x).toList
    let value : ℚ := Double.shortest units / (Double.one * Double.decimalUnits : Nat)
    Double.Reads 'E' text negative value ∧
      Double.Reads 'e' (Value.record (.decimal x)).toList negative value ∧
      (text.head? = some '-' ↔ negative = true) ∧ (value = 0 ↔ units = 0) ∧
        ∃ body, text = minus negative ++ body ∧ IsCanonical value body ∧
          ∀ other, IsCanonical value other → other = body := by
  intro x text value
  have hcanonical : IsCanonical value (Double.magnitudeText Value.decimalLayout units) :=
    Double.isCanonical_magnitudeText h.2
  have htext : text = minus negative ++ Double.magnitudeText Value.decimalLayout units :=
    String.toList_ofList
  have hrecord : (Value.record (.decimal x)).toList =
      minus negative ++ Double.magnitudeText Value.recordLayout units := String.toList_ofList
  refine ⟨?_, ?_, ?_, ?_, _, htext, hcanonical, fun other hother => hother.unique hcanonical⟩
  · rw [htext]
    exact Double.reads_magnitudeText Value.readable_decimalLayout negative h.2
  · rw [hrecord]
    exact Double.reads_magnitudeText Value.readable_recordLayout negative h.2
  · rw [htext]
    cases negative with
    | true => exact ⟨fun _ => rfl, fun _ => rfl⟩
    | false =>
        refine ⟨fun hminus => ?_, fun hfalse => by cases hfalse⟩
        exact absurd (hcanonical.isDigit_of_head? '-' hminus) (by decide)
  · have hscale : ((Double.one * Double.decimalUnits : Nat) : ℚ) ≠ 0 :=
      Nat.cast_ne_zero.mpr (Nat.mul_pos Double.one_pos Double.decimalUnits_pos).ne'
    rw [div_eq_zero_iff, or_iff_left hscale, Nat.cast_eq_zero]
    constructor
    · intro hzero
      by_contra hunits
      exact Double.shortest_ne_zero h.2 hunits hzero
    · rintro rfl
      exact Double.shortest_zero

-- The sign of a zero is written. Positional notation ends at sixteen digits before the point, in a
-- record at seventeen, and below one behind three zeros.
example :
    let whole : Nat → Double := fun n => .nearest false (n * Double.one) 1
    Value.decimalText (.zero true) = "-0" ∧ Value.record (.decimal (.zero true)) = "-0.0" ∧
      Value.decimalText (whole 999999999999999) = "999999999999999" ∧
      Value.decimalText (whole (10 ^ 15)) = "1E+15" ∧
      Value.record (.decimal (whole (10 ^ 15))) = "1000000000000000.0" ∧
      Value.record (.decimal (whole (10 ^ 16))) = "1e+16" ∧
      Value.decimalText (.nearest false Double.one (10 ^ 4)) = "0.0001" ∧
      Value.decimalText (.nearest true (15 * Double.one) (10 ^ 6)) = "-1.5E-05" := by
  decide +kernel

/-- The least magnitude above zero has one digit only, and a long way to the point. -/
theorem decimalText_canonical_least :
    let x := Double.finite true 1 Double.representable_least
    let value : ℚ := Double.shortest 1 / (Double.one * Double.decimalUnits : Nat)
    Value.decimalText x = "-5E-324" ∧ Value.record (.decimal x) = "-5e-324" ∧
      Double.Reads 'e' "-5e-324".toList true value ∧ IsCanonical value "5E-324".toList := by
  intro x value
  have htext : Value.decimalText x = "-5E-324" := by decide +kernel
  have hrecord : Value.record (.decimal x) = "-5e-324" := by decide +kernel
  obtain ⟨-, hread, -, -, body, hbody, hcanonical, -⟩ :=
    decimalText_canonical true Double.representable_least
  change Double.Reads 'e' (Value.record (.decimal x)).toList true value at hread
  change (Value.decimalText x).toList = _ at hbody
  rw [hrecord] at hread
  rw [htext] at hbody
  refine ⟨htext, hrecord, hread, ?_⟩
  have hsame : "5E-324".toList = body := (List.cons.inj hbody).2
  rw [hsame]
  exact hcanonical

end StraightLine
