import Mathlib.Data.Nat.Digits.Defs
import StraightLine.Proofs.Evaluation.Leaves
import StraightLine.Proofs.Text.Canonical

/-!
Integer literals. They are digits behind at most one sign, and nothing else, and have the number that
is written if it is a word. The text of a word is one of its numerals: the one without a character that
could be left out. But a numeral of more digits than the limit is not read, though it may denote a word,
behind zeros.
-/

namespace StraightLine

namespace Text

/-- Digits count by their places, the last one ones. -/
theorem digitsValue_eq_ofDigits (digits : List Char) :
    digitsValue digits = Nat.ofDigits 10 (digits.map fun c => c.toNat - '0'.toNat).reverse := by
  induction digits with
  | nil => rfl
  | cons c rest ih =>
      rw [digitsValue_cons, digitsValue_singleton, ih, List.map_cons, Nat.ofDigits_reverse_cons,
        List.length_map, Nat.add_comm]
      rfl

end Text

namespace Literal

/-- An integer numeral: its sign and its digits. -/
structure Integer where
  negative : Bool
  digits : List Char

namespace Integer

/-- How integer numerals are written: a sign or none, and ASCII digits, one at least. -/
structure Spells (i : Integer) (written : List Char) : Prop where
  spelling : ∃ sign ∈ Text.signs i.negative, written = sign ++ i.digits
  digits : ∀ c ∈ i.digits, c.isDigit
  nonempty : i.digits ≠ []

/-- The integer that a numeral denotes. -/
def value (i : Integer) : Int :=
  let magnitude : Nat := Nat.ofDigits 10 (i.digits.map fun c => c.toNat - '0'.toNat).reverse
  if i.negative then -magnitude else magnitude

theorem value_eq (i : Integer) : i.value =
    if i.negative then -(Text.digitsValue i.digits : Int) else Text.digitsValue i.digits := by
  rw [Text.digitsValue_eq_ofDigits]
  rfl

theorem natAbs_value (i : Integer) : i.value.natAbs = Text.digitsValue i.digits := by
  rw [value_eq]
  split
  · rw [Int.natAbs_neg, Int.natAbs_natCast]
  · exact Int.natAbs_natCast _

/-- Only the negative numerals of zero denote no negative number. -/
theorem value_neg_iff {i : Integer} : i.value < 0 ↔ i.negative ∧ Text.digitsValue i.digits ≠ 0 := by
  rw [value_eq]
  cases i.negative with
  | true => simp only [if_true, true_and]; omega
  | false => simp only [Bool.false_eq_true, if_false, false_and, iff_false]; omega

variable {written : List Char} {i : Integer}

theorem Spells.readInteger (h : i.Spells written) : Text.readInteger written = some i.value := by
  obtain ⟨⟨sign, hsign, rfl⟩, hdigits, hne⟩ := h
  rw [Text.readInteger_append hsign hdigits hne, value_eq]

/-- **Exactly the numerals are read,** as the integers that they denote. -/
theorem readInteger_eq_some_iff {n : Int} :
    Text.readInteger written = some n ↔ ∃ i : Integer, i.Spells written ∧ i.value = n := by
  constructor
  · intro h
    obtain ⟨negative, digits, sign, hsign, hwritten, hdigits, hne⟩ := Text.exists_of_readInteger h
    have hspells : (⟨negative, digits⟩ : Integer).Spells written :=
      ⟨⟨sign, hsign, hwritten⟩, hdigits, hne⟩
    exact ⟨_, hspells, Option.some.inj (hspells.readInteger.symm.trans h)⟩
  · rintro ⟨i, hspells, rfl⟩
    exact hspells.readInteger

theorem readInteger_eq_none_iff :
    Text.readInteger written = none ↔ ¬∃ i : Integer, i.Spells written := by
  rw [Option.eq_none_iff_forall_ne_some]
  simp only [ne_eq, readInteger_eq_some_iff]
  exact ⟨fun h ⟨i, hi⟩ => h i.value ⟨i, hi, rfl⟩, fun h n ⟨i, hi, _⟩ => h ⟨i, hi⟩⟩

/-! ### Texts of integers -/

/-- The numeral that an integer is written as. -/
def ofInt (n : Int) : Integer :=
  ⟨n < 0, Nat.toDigits 10 n.natAbs⟩

theorem spells_integerText (n : Int) : (ofInt n).Spells (Text.integerText n) :=
  ⟨⟨_, Text.minus_mem_signs _, rfl⟩, Text.isDigit_of_mem_toDigits, Nat.toDigits_ne_nil⟩

theorem value_ofInt (n : Int) : (ofInt n).value = n := by
  rw [value_eq, ofInt, Text.digitsValue_toDigits]
  by_cases hn : n < 0
  · rw [if_pos (decide_eq_true hn)]
    omega
  · rw [if_neg (by simpa using hn)]
    omega

theorem plus_not_mem_integerText (n : Int) : '+' ∉ Text.integerText n := by
  intro hmem
  rcases List.mem_append.mp hmem with hsign | hdigit
  · unfold Text.minus at hsign
    split at hsign
    · exact absurd (List.mem_singleton.mp hsign) (by decide)
    · cases hsign
  · exact absurd (Text.isDigit_of_mem_toDigits _ hdigit) (by decide)

/-- Zero has no sign in its text. -/
theorem integerText_ne_minus_zero (n : Int) : Text.integerText n ≠ ['-', '0'] := by
  intro h
  by_cases hn : n < 0
  · rw [Text.integerText, decide_eq_true hn] at h
    have hdigits : Nat.toDigits 10 n.natAbs = ['0'] := (List.cons.inj h).2
    have hzero : n.natAbs = Text.digitsValue ['0'] := by rw [← hdigits, Text.digitsValue_toDigits]
    exact Int.ne_of_lt hn (Int.natAbs_eq_zero.mp hzero)
  · rw [Text.integerText, decide_eq_false hn] at h
    have hminus : '-' ∈ Nat.toDigits 10 n.natAbs := by
      rw [show Nat.toDigits 10 n.natAbs = ['-', '0'] from h]
      exact List.mem_cons_self
    exact absurd (Text.isDigit_of_mem_toDigits _ hminus) (by decide)

/-- The sign and the digits of a numeral can be told from its text. -/
theorem Spells.splitSign (h : i.Spells written) :
    Text.splitSign written = (i.negative, i.digits) := by
  obtain ⟨⟨sign, hsign, rfl⟩, hdigits, -⟩ := h
  refine Text.splitSign_append hsign fun c hc => ?_
  have hdigit := hdigits c (List.mem_of_mem_head? hc)
  exact ⟨Text.ne_of_isDigit hdigit rfl, Text.ne_of_isDigit hdigit rfl⟩

theorem Spells.unique {j : Integer} (h : i.Spells written) (h' : j.Spells written) : i = j := by
  have hsame := h.splitSign.symm.trans h'.splitSign
  cases i
  cases j
  cases hsame
  rfl

theorem Spells.sign_eq (h : i.Spells written) (hplus : '+' ∉ written) :
    written = Text.minus i.negative ++ i.digits := by
  obtain ⟨⟨sign, hsign, rfl⟩, -, -⟩ := h
  congr 1
  cases hnegative : i.negative with
  | true =>
      rw [hnegative] at hsign
      exact List.mem_singleton.mp hsign
  | false =>
      rw [hnegative] at hsign
      rcases List.mem_cons.mp hsign with rfl | hsign
      · rfl
      · rw [List.mem_singleton.mp hsign] at hplus
        exact absurd List.mem_cons_self hplus

/-- **Of the numerals of an integer its text is the one** with nothing to leave out: no plus sign, no
zero in front of other digits, and no sign of zero. -/
theorem Spells.integerText_eq_iff (h : i.Spells written) : Text.integerText i.value = written ↔
    '+' ∉ written ∧ Text.Leads i.digits ∧ written ≠ ['-', '0'] := by
  constructor
  · rintro rfl
    have hself : i = ofInt i.value := h.unique (spells_integerText i.value)
    refine ⟨plus_not_mem_integerText _, ?_, integerText_ne_minus_zero _⟩
    rw [hself]
    exact Text.leads_toDigits _
  · rintro ⟨hplus, hleads, hzero⟩
    have hdigits : i.digits = Nat.toDigits 10 i.value.natAbs := by
      refine hleads.eq_of_digitsValue_eq (Text.leads_toDigits _) h.digits
        Text.isDigit_of_mem_toDigits ?_
      rw [Text.digitsValue_toDigits, natAbs_value]
    have hwritten := h.sign_eq hplus
    have hnegative : decide (i.value < 0) = i.negative := by
      rw [Bool.eq_iff_iff, decide_eq_true_iff, value_neg_iff, and_iff_left_iff_imp]
      intro hminus hvalue
      rw [natAbs_value, hvalue] at hdigits
      rw [hminus, hdigits] at hwritten
      exact hzero hwritten
    rw [hwritten, Text.integerText, hnegative, ← hdigits]

end Integer

theorem integer?_eq_none_iff {written : String} :
    integer? written = none ↔ ¬∃ i : Integer, i.Spells written.toList :=
  Integer.readInteger_eq_none_iff

-- Not numerals: a sign alone, two signs, and what is no ASCII digit, such as a blank or a line end.
example : ["", "+", "--1", "1_000", " 3", "3\n", "3.", "٣"].map integer? =
    List.replicate 8 none := by
  decide +kernel

/-- A text is a numeral of too many digits, a numeral that is read as a word, or neither. -/
theorem Integer.trichotomy (written : List Char) :
    (∃ i : Integer, i.Spells written ∧ digitLimit < i.digits.length) ∨
      (∃ i : Integer, i.Spells written ∧ i.digits.length ≤ digitLimit ∧ Word.InRange i.value) ∨
        ∀ i : Integer, i.Spells written → i.digits.length ≤ digitLimit ∧ ¬Word.InRange i.value := by
  by_cases hspells : ∃ i : Integer, i.Spells written
  · obtain ⟨i, hi⟩ := hspells
    rcases Nat.lt_or_ge digitLimit i.digits.length with hlong | hread
    · exact Or.inl ⟨i, hi, hlong⟩
    · by_cases hrange : Word.InRange i.value
      · exact Or.inr (Or.inl ⟨i, hi, hread, hrange⟩)
      · refine Or.inr (Or.inr fun j hj => ?_)
        rw [hj.unique hi]
        exact ⟨hread, hrange⟩
  · exact Or.inr (Or.inr fun i hi => absurd ⟨i, hi⟩ hspells)

theorem digitCount_of_spells {written : String} {i : Integer} (h : i.Spells written.toList) :
    digitCount written = i.digits.length := by
  rw [digitCount, h.splitSign]

/-- What a literal whose text is a numeral has as its value: the number, if it is a word and the numeral
has few enough digits to be read. -/
theorem value_of_spells {written : String} {i : Integer} (h : i.Spells written.toList) :
    value .integer written =
      if digitLimit < i.digits.length then .error (.fault (.tooManyDigits i.digits.length))
      else if Word.InRange i.value then .ok (.integer i.value)
      else .error (.ofCause (.integerOutOfRange written)) := by
  rw [value, integer?, h.readInteger, digitCount_of_spells h]

/-- The texts of words have few digits. -/
theorem length_digits_ofInt {n : Int} (h : Word.InRange n) :
    (Integer.ofInt n).digits.length ≤ digitLimit := by
  have hlt : n.natAbs < 10 ^ 19 := by
    unfold Word.InRange Word.least Word.greatest at h
    omega
  calc (Nat.toDigits 10 n.natAbs).length ≤ 19 :=
        (Nat.length_toDigits_le_iff (by decide) (by decide)).mpr hlt
    _ ≤ digitLimit := by decide

end Literal

theorem Value.written_integer_eq_iff {i : Literal.Integer} {written : String}
    (h : i.Spells written.toList) : (Value.integer i.value).written = written ↔
      '+' ∉ written.toList ∧ Text.Leads i.digits ∧ written ≠ "-0" := by
  have hzero : written ≠ "-0" ↔ written.toList ≠ ['-', '0'] :=
    not_congr String.toList_inj.symm
  rw [hzero, ← h.integerText_eq_iff, ← String.toList_inj]
  exact iff_of_eq (congrArg (· = _) (String.toList_ofList))

section Evaluation

variable {written : String} {i : Literal.Integer}

theorem evaluate_integer_of_spells (h : i.Spells written.toList)
    (hdigits : i.digits.length ≤ Literal.digitLimit) (hrange : Word.InRange i.value) (spot : Int)
    (scope : Scope) :
    evaluate (.literal .integer written spot) scope = ⟨.ok (.integer i.value), scope, ""⟩ := by
  refine evaluate_literal_of_ok ?_ spot scope
  rw [Literal.value_of_spells h, if_neg (Nat.not_lt.mpr hdigits), if_pos hrange]

/-- A numeral of too many digits is not read, whatever number it denotes. -/
theorem evaluate_integer_of_too_long (h : i.Spells written.toList)
    (hdigits : Literal.digitLimit < i.digits.length) (spot : Int) (scope : Scope) :
    evaluate (.literal .integer written spot) scope =
      ⟨.error (.fault (.tooManyDigits i.digits.length)), scope, ""⟩ := by
  refine evaluate_literal_of_fault ?_ spot scope
  rw [Literal.value_of_spells h, if_pos hdigits]

/-- A text that is no numeral is malformed, and so is a numeral that is read as too large a number. -/
theorem evaluate_integer_of_not_word
    (h : ∀ i : Literal.Integer, i.Spells written.toList →
      i.digits.length ≤ Literal.digitLimit ∧ ¬Word.InRange i.value) (spot : Int) (scope : Scope) :
    ∃ cause, cause.kind? = some .malformedLiteral ∧
      evaluate (.literal .integer written spot) scope =
        ⟨.error (.error ⟨cause, some (.literal .integer written spot)⟩), scope, ""⟩ := by
  by_cases hspells : ∃ i : Literal.Integer, i.Spells written.toList
  · obtain ⟨i, hi⟩ := hspells
    obtain ⟨hdigits, hrange⟩ := h i hi
    refine ⟨.integerOutOfRange written, rfl, evaluate_literal_of_cause ?_ spot scope⟩
    rw [Literal.value_of_spells hi, if_neg (Nat.not_lt.mpr hdigits), if_neg hrange]
  · have hnone : Literal.integer? written = none := Literal.integer?_eq_none_iff.mpr hspells
    refine ⟨.notInteger written, rfl, evaluate_literal_of_cause ?_ spot scope⟩
    rw [Literal.value, hnone]

end Evaluation

/-- The text of a word is read back as the word. -/
theorem evaluate_written_integer {n : Int} (hn : Word.InRange n) (spot : Int) (scope : Scope) :
    evaluate (.literal .integer (Value.integer n).written spot) scope =
      ⟨.ok (.integer n), scope, ""⟩ := by
  have hspells : (Literal.Integer.ofInt n).Spells (Value.integer n).written.toList := by
    rw [show (Value.integer n).written.toList = Text.integerText n from String.toList_ofList]
    exact Literal.Integer.spells_integerText n
  have hvalue := Literal.Integer.value_ofInt n
  rw [evaluate_integer_of_spells hspells (Literal.length_digits_ofInt hn) (by rwa [hvalue]) spot
    scope, hvalue]

/-- **Integer literals and the texts of integers are inverse,** as far as literals are read. A literal
has a value if and only if its text is a numeral, a sign or none before ASCII digits, of a word and of no
more digits than the limit; the value is then that word. A numeral of more digits is not read, and that
is a fault. Any other text is malformed, and the literal is to blame. The text of a word is the literal's
own just where the numeral has no plus sign, no zero in front of other digits and no sign of zero, and
the text of every word is read back as the word. -/
theorem integer_literals_inverse (written : String) (spot : Int) (scope : Scope) :
    let literal := Tree.literal .integer written spot
    let outcome := evaluate literal scope
    outcome.scope = scope ∧ outcome.output = "" ∧
      ((∃ value, outcome.result = .ok value) ↔ ∃ i : Literal.Integer, i.Spells written.toList ∧
        i.digits.length ≤ Literal.digitLimit ∧ Word.InRange i.value) ∧
      (∀ i : Literal.Integer, i.Spells written.toList →
        (i.digits.length ≤ Literal.digitLimit → Word.InRange i.value →
          outcome.result = .ok (.integer i.value)) ∧
        (Literal.digitLimit < i.digits.length →
          outcome.result = .error (.fault (.tooManyDigits i.digits.length))) ∧
        ((Value.integer i.value).written = written ↔
          '+' ∉ written.toList ∧ Text.Leads i.digits ∧ written ≠ "-0")) ∧
      ((∀ i : Literal.Integer, i.Spells written.toList →
          i.digits.length ≤ Literal.digitLimit ∧ ¬Word.InRange i.value) →
        ∃ e, outcome.result = .error (.error e) ∧ e.cause.kind? = some .malformedLiteral ∧
          e.guilty = some literal) ∧
      ∀ n, Word.InRange n →
        evaluate (.literal .integer (Value.integer n).written spot) scope =
          ⟨.ok (.integer n), scope, ""⟩ := by
  intro literal outcome
  have hword : ∀ i : Literal.Integer, i.Spells written.toList →
      i.digits.length ≤ Literal.digitLimit → Word.InRange i.value →
        outcome = ⟨.ok (.integer i.value), scope, ""⟩ :=
    fun i hi hread hrange => evaluate_integer_of_spells hi hread hrange spot scope
  have hfault : ∀ i : Literal.Integer, i.Spells written.toList →
      Literal.digitLimit < i.digits.length →
        outcome = ⟨.error (.fault (.tooManyDigits i.digits.length)), scope, ""⟩ :=
    fun i hi hlong => evaluate_integer_of_too_long hi hlong spot scope
  have hnumeral : ∀ i : Literal.Integer, i.Spells written.toList →
      (i.digits.length ≤ Literal.digitLimit → Word.InRange i.value →
          outcome.result = .ok (.integer i.value)) ∧
        (Literal.digitLimit < i.digits.length →
          outcome.result = .error (.fault (.tooManyDigits i.digits.length))) ∧
        ((Value.integer i.value).written = written ↔
          '+' ∉ written.toList ∧ Text.Leads i.digits ∧ written ≠ "-0") :=
    fun i hi => ⟨fun hread hrange => by rw [hword i hi hread hrange],
      fun hlong => by rw [hfault i hi hlong], Value.written_integer_eq_iff hi⟩
  have hback : ∀ n, Word.InRange n →
      evaluate (.literal .integer (Value.integer n).written spot) scope =
        ⟨.ok (.integer n), scope, ""⟩ := fun n hn => evaluate_written_integer hn spot scope
  rcases Literal.Integer.trichotomy written.toList with
    ⟨i, hi, hlong⟩ | ⟨i, hi, hread, hrange⟩ | hmalformed
  · rw [hfault i hi hlong] at hnumeral ⊢
    refine ⟨rfl, rfl, iff_of_false ?_ ?_, hnumeral, fun hother => ?_, hback⟩
    · rintro ⟨value, hvalue⟩
      cases hvalue
    · rintro ⟨j, hj, hread, -⟩
      rw [hj.unique hi] at hread
      exact Nat.not_le_of_lt hlong hread
    · exact absurd (hother i hi).1 (Nat.not_le_of_lt hlong)
  · rw [hword i hi hread hrange] at hnumeral ⊢
    exact ⟨rfl, rfl, iff_of_true ⟨_, rfl⟩ ⟨i, hi, hread, hrange⟩, hnumeral,
      fun hother => absurd hrange (hother i hi).2, hback⟩
  · obtain ⟨cause, hkind, herror⟩ := evaluate_integer_of_not_word hmalformed spot scope
    rw [show outcome = _ from herror] at hnumeral ⊢
    refine ⟨rfl, rfl, iff_of_false ?_ ?_, hnumeral, fun _ => ⟨_, rfl, hkind, rfl⟩, hback⟩
    · rintro ⟨value, hvalue⟩
      cases hvalue
    · rintro ⟨i, hi, -, hrange⟩
      exact (hmalformed i hi).2 hrange

/-- Zeros in front are read and not written back; one more than the greatest word is no value. -/
theorem integer_literals_inverse_padded :
    let padded : Literal.Integer := ⟨true, "007".toList⟩
    padded.Spells "-007".toList ∧ Word.InRange padded.value ∧ padded.value = -7 ∧
      (evaluate (.literal .integer "-007" 1) .empty).result = .ok (.integer padded.value) ∧
      (Value.integer padded.value).written ≠ "-007" ∧
      (∃ e, (evaluate (.literal .integer "9223372036854775808" 2) .empty).result =
        .error (.error e) ∧ e.cause.kind? = some .malformedLiteral) ∧
      Word.InRange Word.least ∧
      (evaluate (.literal .integer (Value.integer Word.least).written 2) .empty).result =
        .ok (.integer Word.least) := by
  intro padded
  have hspells : padded.Spells "-007".toList :=
    ⟨⟨['-'], List.mem_singleton_self _, rfl⟩, List.all_eq_true.mp (by decide), by decide⟩
  have hseven : padded.value = -7 := by decide +kernel
  have hrange : Word.InRange padded.value := by
    rw [hseven]
    decide
  have htoo : ∀ i : Literal.Integer, i.Spells "9223372036854775808".toList →
      i.digits.length ≤ Literal.digitLimit ∧ ¬Word.InRange i.value := by
    intro i hi
    have hread : some i.value = some (9223372036854775808 : Int) :=
      hi.readInteger.symm.trans (by decide +kernel)
    have hcount : i.digits.length = 19 :=
      (Literal.digitCount_of_spells hi).symm.trans (by decide +kernel)
    rw [Option.some.inj hread, hcount]
    decide
  have hleast : Word.InRange Word.least := by decide
  obtain ⟨-, -, -, hnumeral, -⟩ := integer_literals_inverse "-007" 1 .empty
  obtain ⟨-, -, -, -, hmalformed, hback⟩ :=
    integer_literals_inverse "9223372036854775808" 2 .empty
  obtain ⟨hread, -, hwritten⟩ := hnumeral padded hspells
  obtain ⟨e, he, hkind, -⟩ := hmalformed htoo
  refine ⟨hspells, hrange, hseven, hread (by decide) hrange, fun hsame => ?_, ⟨e, he, hkind⟩, hleast,
    ?_⟩
  · obtain ⟨-, ⟨c, rest, hdigits, hzero⟩, -⟩ := hwritten.mp hsame
    cases hdigits
    cases hzero rfl
  · rw [hback Word.least hleast]

/-! ### A numeral that is not read -/

namespace Literal

/-- One, behind as many zeros as there may be digits. -/
def Integer.overlong : Integer :=
  ⟨false, List.replicate digitLimit '0' ++ ['1']⟩

def overlongText : String :=
  String.ofList Integer.overlong.digits

theorem Integer.spells_overlong : Integer.overlong.Spells overlongText.toList := by
  have hdigits : ∀ c ∈ List.replicate digitLimit '0' ++ ['1'], c.isDigit :=
    List.forall_mem_append.mpr ⟨Text.isDigit_of_mem_zeros, List.forall_mem_singleton.mpr rfl⟩
  have hne : List.replicate digitLimit '0' ++ ['1'] ≠ [] :=
    List.append_ne_nil_of_right_ne_nil _ (List.cons_ne_nil _ _)
  rw [overlongText, String.toList_ofList]
  exact ⟨⟨[], List.mem_cons_self, rfl⟩, hdigits, hne⟩

theorem Integer.value_overlong : Integer.overlong.value = 1 := by
  rw [value_eq, overlong, Text.digitsValue_zeros_append]
  decide

theorem Integer.digitLimit_lt_overlong : digitLimit < Integer.overlong.digits.length := by
  rw [overlong, List.length_append, List.length_replicate]
  exact Nat.lt_succ_self digitLimit

end Literal

theorem evaluate_overlong (spot : Int) (scope : Scope) :
    evaluate (.literal .integer Literal.overlongText spot) scope =
      ⟨.error (.fault (.tooManyDigits Literal.Integer.overlong.digits.length)), scope, ""⟩ :=
  evaluate_integer_of_too_long Literal.Integer.spells_overlong
    Literal.Integer.digitLimit_lt_overlong spot scope

/-- **A numeral of a word may be without a value.** Behind too many zeros one is not read, and no error
of the language tells of it. -/
theorem integer_literal_not_read :
    let outcome := evaluate (.literal .integer Literal.overlongText 1) .empty
    Literal.Integer.overlong.Spells Literal.overlongText.toList ∧
      Word.InRange Literal.Integer.overlong.value ∧ (¬∃ value, outcome.result = .ok value) ∧
        ¬∃ e, outcome.result = .error (.error e) := by
  intro outcome
  have hrange : Word.InRange Literal.Integer.overlong.value := by
    rw [Literal.Integer.value_overlong]
    decide
  have hfault : outcome.result = .error (.fault _) :=
    congrArg Outcome.result (evaluate_overlong 1 .empty)
  refine ⟨Literal.Integer.spells_overlong, hrange, ?_, ?_⟩
  · rintro ⟨value, hvalue⟩
    cases hfault.symm.trans hvalue
  · rintro ⟨e, he⟩
    cases hfault.symm.trans he

end StraightLine
