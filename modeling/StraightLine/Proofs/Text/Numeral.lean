import Mathlib.Algebra.Order.Field.Power
import Mathlib.Data.Rat.Cast.Order
import Mathlib.Tactic.Ring
import StraightLine.Literal

/-!
Numerals with a point and a power of ten. A numeral denotes a rational number, which does not change
when the power is spent on moving the point, and what is left is the text of a decimal literal.
-/

namespace StraightLine

namespace Text

/-! ### Digits -/

theorem digitsValue_append (digits more : List Char) :
    digitsValue (digits ++ more) = 10 ^ more.length * digitsValue digits + digitsValue more := by
  unfold digitsValue
  rw [Nat.ofDigitChars_append, Nat.ofDigitChars_eq_ofDigitChars_zero]

theorem digitsValue_zeros (n : Nat) : digitsValue (List.replicate n '0') = 0 := by
  rw [digitsValue, Nat.ofDigitChars_replicate_zero, Nat.mul_zero]

theorem digitsValue_zeros_append (n : Nat) (digits : List Char) :
    digitsValue (List.replicate n '0' ++ digits) = digitsValue digits := by
  rw [digitsValue_append, digitsValue_zeros, Nat.mul_zero, Nat.zero_add]

theorem digitsValue_append_zeros (digits : List Char) (n : Nat) :
    digitsValue (digits ++ List.replicate n '0') = 10 ^ n * digitsValue digits := by
  rw [digitsValue_append, digitsValue_zeros, List.length_replicate, Nat.add_zero]

theorem isDigit_of_mem_zeros {n : Nat} : ∀ c ∈ List.replicate n '0', c.isDigit := by
  intro c hc
  rw [List.eq_of_mem_replicate hc]
  rfl

theorem isDigit_of_mem_toDigits {n : Nat} : ∀ c ∈ Nat.toDigits 10 n, c.isDigit :=
  fun _ hc => Nat.isDigit_of_mem_toDigits (by decide) (by decide) hc

theorem ne_of_isDigit {c d : Char} (hc : c.isDigit) (hd : d.isDigit = false) : c ≠ d := by
  rintro rfl
  rw [hc] at hd
  cases hd

theorem bne_of_isDigit {digits : List Char} (h : ∀ c ∈ digits, c.isDigit) {d : Char}
    (hd : d.isDigit = false) : ∀ c ∈ digits, (c != d) = true :=
  fun c hc => bne_iff_ne.mpr (ne_of_isDigit (h c hc) hd)

/-- The signs that a numeral may begin with. -/
def signs (negative : Bool) : List (List Char) :=
  if negative then [['-']] else [[], ['+']]

theorem minus_mem_signs (negative : Bool) : minus negative ∈ signs negative := by
  cases negative with
  | true => exact List.mem_singleton_self _
  | false => exact List.mem_cons_self

/-- A sign is split off a text that goes on with another character. -/
theorem splitSign_append {negative : Bool} {sign body : List Char} (hsign : sign ∈ signs negative)
    (hbody : ∀ c ∈ body.head?, c ≠ '-' ∧ c ≠ '+') : splitSign (sign ++ body) = (negative, body) := by
  have hunsigned : splitSign body = (false, body) := by
    cases body with
    | nil => rfl
    | cons c rest =>
        obtain ⟨hminus, hplus⟩ := hbody c rfl
        unfold splitSign
        split
        · rename_i h
          exact absurd (List.cons.inj h).1 hminus
        · rename_i h
          exact absurd (List.cons.inj h).1 hplus
        · rfl
  cases negative with
  | true =>
      rw [List.mem_singleton.mp hsign]
      rfl
  | false =>
      rcases List.mem_cons.mp hsign with rfl | hplus
      · exact hunsigned
      · rw [List.mem_singleton.mp hplus]
        rfl

/-- What is split off is a sign. -/
theorem splitSign_spec (text : List Char) :
    ∃ sign ∈ signs (splitSign text).1, text = sign ++ (splitSign text).2 := by
  unfold splitSign
  split
  · exact ⟨['-'], List.mem_singleton_self _, rfl⟩
  · exact ⟨['+'], List.mem_cons_of_mem _ (List.mem_singleton_self _), rfl⟩
  · exact ⟨[], List.mem_cons_self, rfl⟩

/-- Digits behind a sign, one at least, are read as an integer. -/
theorem readInteger_append {negative : Bool} {sign digits : List Char}
    (hsign : sign ∈ signs negative) (hdigits : ∀ c ∈ digits, c.isDigit) (hne : digits ≠ []) :
    readInteger (sign ++ digits) =
      some (if negative then -(digitsValue digits : Int) else digitsValue digits) := by
  have hsplit : splitSign (sign ++ digits) = (negative, digits) := by
    refine splitSign_append hsign fun c hc => ?_
    have hdigit := hdigits c (List.mem_of_mem_head? hc)
    exact ⟨ne_of_isDigit hdigit rfl, ne_of_isDigit hdigit rfl⟩
  unfold readInteger
  rw [hsplit]
  simp only [List.isEmpty_eq_false_iff.mpr hne, List.all_eq_true.mpr hdigits, Bool.not_true,
    Bool.or_self, Bool.false_eq_true, if_false]
  cases negative <;> rfl

/-- What is read as an integer is digits behind a sign, one at least. -/
theorem exists_of_readInteger {text : List Char} {n : Int} (h : readInteger text = some n) :
    ∃ negative digits, ∃ sign ∈ signs negative, text = sign ++ digits ∧
      (∀ c ∈ digits, c.isDigit) ∧ digits ≠ [] := by
  obtain ⟨sign, hsign, htext⟩ := splitSign_spec text
  unfold readInteger at h
  dsimp only at h
  split at h
  · cases h
  · rename_i hdigits
    rw [Bool.not_eq_true, Bool.or_eq_false_iff, Bool.not_eq_false', List.isEmpty_eq_false_iff,
      List.all_eq_true] at hdigits
    exact ⟨_, _, sign, hsign, htext, hdigits.2, hdigits.1⟩

/-- An integer is read off a sign, any zeros, and its digits. -/
theorem readInteger_padded (n : Int) (zeros : Nat) :
    readInteger ((if n < 0 then '-' else '+') ::
      (List.replicate zeros '0' ++ Nat.toDigits 10 n.natAbs)) = some n := by
  have hdigits : ∀ c ∈ List.replicate zeros '0' ++ Nat.toDigits 10 n.natAbs, c.isDigit := by
    intro c hc
    exact (List.mem_append.mp hc).elim (isDigit_of_mem_zeros c) (isDigit_of_mem_toDigits c)
  have hne : List.replicate zeros '0' ++ Nat.toDigits 10 n.natAbs ≠ [] :=
    fun h => Nat.toDigits_ne_nil (List.append_eq_nil_iff.mp h).2
  have hvalue : digitsValue (List.replicate zeros '0' ++ Nat.toDigits 10 n.natAbs) = n.natAbs := by
    rw [digitsValue_zeros_append, digitsValue_toDigits]
  by_cases hn : n < 0
  · have hminus : ['-'] ∈ signs true := List.mem_singleton_self ['-']
    rw [if_pos hn]
    refine (readInteger_append hminus hdigits hne).trans (congrArg some ?_)
    rw [if_pos rfl, hvalue, Int.ofNat_natAbs_of_nonpos (Int.le_of_lt hn), Int.neg_neg]
  · have hplus : ['+'] ∈ signs false := List.mem_cons_of_mem _ (List.mem_singleton_self ['+'])
    rw [if_neg hn]
    refine (readInteger_append hplus hdigits hne).trans (congrArg some ?_)
    rw [if_neg Bool.false_ne_true, hvalue, Int.natAbs_of_nonneg (Int.not_lt.mp hn)]

end Text

/-- A numeral: its sign, its digits before and behind the point, and a power of ten. -/
structure Numeral where
  negative : Bool
  whole : List Char
  fraction : List Char
  power : Int

namespace Numeral

/-- The magnitude that a numeral denotes. -/
def value (n : Numeral) : ℚ :=
  Text.digitsValue (n.whole ++ n.fraction) * 10 ^ (n.power - n.fraction.length)

/-- One digit at least, and nothing but digits. -/
structure WellFormed (n : Numeral) : Prop where
  whole : ∀ c ∈ n.whole, c.isDigit
  fraction : ∀ c ∈ n.fraction, c.isDigit
  nonempty : n.whole ++ n.fraction ≠ []

theorem WellFormed.digits {n : Numeral} (h : n.WellFormed) :
    ∀ c ∈ n.whole ++ n.fraction, c.isDigit := by
  intro c hc
  rcases List.mem_append.mp hc with hc | hc
  · exact h.whole c hc
  · exact h.fraction c hc

/-- The same number without a power. The point moves over the digits, behind zeros where it leaves
them on either side. -/
def shift (n : Numeral) : Numeral :=
  let digits := List.replicate (-n.power).toNat '0' ++ (n.whole ++ n.fraction) ++
    List.replicate (n.power.toNat - n.fraction.length) '0'
  let point := n.whole.length + n.power.toNat
  ⟨n.negative, digits.take point, digits.drop point, 0⟩

theorem shift_digits (n : Numeral) :
    n.shift.whole ++ n.shift.fraction = List.replicate (-n.power).toNat '0' ++
      (n.whole ++ n.fraction) ++ List.replicate (n.power.toNat - n.fraction.length) '0' :=
  List.take_append_drop _ _

section Digits

variable {n : Numeral} {front back : Nat} {digits : List Char}
  (hdigits : n.whole ++ n.fraction =
    List.replicate front '0' ++ digits ++ List.replicate back '0')

include hdigits

/-- Zeros around the digits and the place of the point only count towards the power of ten. -/
theorem value_of_digits {power : Int} (hpower : power = back + n.power - n.fraction.length) :
    n.value = Text.digitsValue digits * 10 ^ power := by
  have hten : (10 : ℚ) ≠ 0 := by norm_num
  unfold value
  rw [hdigits, Text.digitsValue_append_zeros, Text.digitsValue_zeros_append]
  calc ((10 ^ back * Text.digitsValue digits : Nat) : ℚ) * 10 ^ (n.power - n.fraction.length)
      = Text.digitsValue digits * (10 ^ (back : Int) * 10 ^ (n.power - n.fraction.length)) := by
        rw [zpow_natCast]
        push_cast
        ring
    _ = Text.digitsValue digits * 10 ^ power := by
        rw [← zpow_add₀ hten, hpower, Int.add_sub_assoc]

theorem wellFormed_of_digits (hall : ∀ c ∈ digits, c.isDigit) (hne : digits ≠ []) :
    n.WellFormed := by
  have hmem : ∀ c ∈ n.whole ++ n.fraction, c.isDigit := by
    intro c hc
    rw [hdigits, List.mem_append, List.mem_append] at hc
    rcases hc with (hc | hc) | hc
    · exact Text.isDigit_of_mem_zeros c hc
    · exact hall c hc
    · exact Text.isDigit_of_mem_zeros c hc
  refine ⟨fun c hc => hmem c (List.mem_append_left _ hc),
    fun c hc => hmem c (List.mem_append_right _ hc), ?_⟩
  rw [hdigits]
  intro hnil
  exact hne (List.append_eq_nil_iff.mp (List.append_eq_nil_iff.mp hnil).1).2

end Digits

theorem value_shift (n : Numeral) : n.shift.value = n.value := by
  refine value_of_digits n.shift_digits ?_
  simp only [shift, List.length_drop, List.length_append, List.length_replicate]
  omega

theorem WellFormed.shift {n : Numeral} (h : n.WellFormed) : n.shift.WellFormed :=
  wellFormed_of_digits n.shift_digits h.digits h.nonempty

/-! ### Texts -/

/-- Digits with a point between them if any follow it. -/
def pointed (whole fraction : List Char) : List Char :=
  whole ++ if fraction.isEmpty then [] else '.' :: fraction

theorem pointed_of_ne_nil (whole : List Char) {fraction : List Char} (h : fraction ≠ []) :
    pointed whole fraction = whole ++ '.' :: fraction := by
  rw [pointed, List.isEmpty_eq_false_iff.mpr h]
  rfl

/-- The numeral of a text, with the power behind the mark. -/
def ofText (mark : Char) (text : List Char) : Numeral :=
  let (negative, body) := Text.splitSign (text.takeWhile (· != mark))
  { negative
    whole := body.takeWhile (· != '.')
    fraction := (body.dropWhile (· != '.')).drop 1
    power := (Text.readInteger ((text.dropWhile (· != mark)).drop 1)).getD 0 }

/-- The text of a numeral without a power, with a point even where no digit follows. -/
def plain (n : Numeral) : List Char :=
  Text.minus n.negative ++ (n.shift.whole ++ '.' :: n.shift.fraction)

section Reading

variable {whole fraction : List Char}

theorem isDigit_or_eq_point (hwhole : ∀ c ∈ whole, c.isDigit)
    (hfraction : ∀ c ∈ fraction, c.isDigit) :
    ∀ c ∈ pointed whole fraction, c.isDigit ∨ c = '.' := by
  intro c hc
  rw [pointed, List.mem_append] at hc
  rcases hc with hc | hc
  · exact Or.inl (hwhole c hc)
  · split at hc
    · cases hc
    · rcases List.mem_cons.mp hc with rfl | hc
      · exact Or.inr rfl
      · exact Or.inl (hfraction c hc)

theorem takeWhile_pointed (hwhole : ∀ c ∈ whole, c.isDigit) :
    (pointed whole fraction).takeWhile (· != '.') = whole := by
  rw [pointed, List.takeWhile_append_of_pos (Text.bne_of_isDigit hwhole rfl)]
  split
  · exact List.append_nil whole
  · rw [List.takeWhile_cons_of_neg (by decide), List.append_nil]

theorem dropWhile_pointed (hwhole : ∀ c ∈ whole, c.isDigit) :
    ((pointed whole fraction).dropWhile (· != '.')).drop 1 = fraction := by
  rw [pointed, List.dropWhile_append_of_pos (Text.bne_of_isDigit hwhole rfl)]
  split
  · rename_i hnil
    exact (List.isEmpty_iff.mp hnil).symm
  · rfl

/-- What is read off a text is what it was written from. What follows the digits is nothing, or a
mark that occurs nowhere before it. -/
theorem ofText_pointed {mark : Char} (negative : Bool) (tail : List Char)
    (hmark : mark.isDigit = false ∧ mark ≠ '.' ∧ mark ≠ '-') (hwhole : ∀ c ∈ whole, c.isDigit)
    (hfraction : ∀ c ∈ fraction, c.isDigit) (htail : ∀ c ∈ tail.head?, c = mark) :
    ofText mark (Text.minus negative ++ pointed whole fraction ++ tail) =
      ⟨negative, whole, fraction, (Text.readInteger (tail.drop 1)).getD 0⟩ := by
  have hbody := isDigit_or_eq_point hwhole hfraction
  have hne : ∀ c ∈ Text.minus negative ++ pointed whole fraction, (c != mark) = true := by
    intro c hc
    rw [bne_iff_ne]
    rcases List.mem_append.mp hc with hc | hc
    · cases negative with
      | true => exact List.mem_singleton.mp hc ▸ hmark.2.2.symm
      | false => cases hc
    · rcases hbody c hc with hdigit | rfl
      · exact Text.ne_of_isDigit hdigit hmark.1
      · exact hmark.2.1.symm
  have htake : tail.takeWhile (· != mark) = [] := by
    cases tail with
    | nil => rfl
    | cons c rest => rw [List.takeWhile_cons_of_neg (by simp [htail c rfl])]
  have hdrop : tail.dropWhile (· != mark) = tail := by
    cases tail with
    | nil => rfl
    | cons c rest => rw [List.dropWhile_cons_of_neg (by simp [htail c rfl])]
  have hsign : Text.splitSign (Text.minus negative ++ pointed whole fraction) =
      (negative, pointed whole fraction) := by
    refine Text.splitSign_append (Text.minus_mem_signs negative) fun c hc => ?_
    rcases hbody c (List.mem_of_mem_head? hc) with hdigit | rfl
    · exact ⟨Text.ne_of_isDigit hdigit rfl, Text.ne_of_isDigit hdigit rfl⟩
    · decide
  unfold ofText
  rw [List.takeWhile_append_of_pos hne, List.dropWhile_append_of_pos hne, htake, hdrop,
    List.append_nil, hsign]
  simp only [takeWhile_pointed hwhole, dropWhile_pointed hwhole]

/-- Digits around a point, one at least, are the text of a decimal literal. -/
theorem parts?_pointed {negative : Bool} {sign : List Char} (hsign : sign ∈ Text.signs negative)
    (hwhole : ∀ c ∈ whole, c.isDigit) (hfraction : ∀ c ∈ fraction, c.isDigit)
    (hne : whole ++ fraction ≠ []) :
    Literal.parts? (sign ++ (whole ++ '.' :: fraction)) = some ⟨negative, whole, fraction⟩ := by
  have hsplit : Text.splitSign (sign ++ (whole ++ '.' :: fraction)) =
      (negative, whole ++ '.' :: fraction) := by
    refine Text.splitSign_append hsign fun c hc => ?_
    cases whole with
    | nil =>
        cases hc
        decide
    | cons d rest =>
        cases hc
        have hdigit := hwhole c List.mem_cons_self
        exact ⟨Text.ne_of_isDigit hdigit rfl, Text.ne_of_isDigit hdigit rfl⟩
  have htake : (whole ++ '.' :: fraction).takeWhile Char.isDigit = whole := by
    rw [List.takeWhile_append_of_pos hwhole, List.takeWhile_cons_of_neg (by decide),
      List.append_nil]
  have hdrop : (whole ++ '.' :: fraction).dropWhile Char.isDigit = '.' :: fraction := by
    rw [List.dropWhile_append_of_pos hwhole, List.dropWhile_cons_of_neg (by decide)]
  have hsome : (whole.isEmpty && fraction.isEmpty) = false := by
    cases whole with
    | nil =>
        cases fraction with
        | nil => exact absurd rfl hne
        | cons _ _ => rfl
    | cons _ _ => rfl
  unfold Literal.parts?
  rw [hsplit]
  simp only [htake, hdrop, List.all_eq_true.mpr hfraction, hsome, Bool.not_false, Bool.and_self,
    if_true]

end Reading

end Numeral

end StraightLine
