import StraightLine.Proofs.Text.Numeral

/-!
Canonical numerals. Digits without superfluous zeros are determined by the number that they denote: the
length of the fraction first, because it does not end in a zero, and then every digit.
-/

namespace StraightLine

namespace Text

/-! ### Single digits -/

theorem digitsValue_singleton (c : Char) : digitsValue [c] = c.toNat - 48 := by
  rw [digitsValue, Nat.ofDigitChars_cons, Nat.ofDigitChars_nil, Nat.mul_zero, Nat.zero_add]
  rfl

theorem toNat_of_isDigit {c : Char} (h : c.isDigit) : 48 ≤ c.toNat ∧ c.toNat ≤ 57 := by
  simpa [Char.isDigit, UInt32.le_iff_toNat_le] using h

theorem eq_zero_of_digitsValue_singleton {c : Char} (h : c.isDigit) (hc : digitsValue [c] = 0) :
    c = '0' := by
  have hbounds := toNat_of_isDigit h
  rw [digitsValue_singleton] at hc
  apply Char.toNat_inj.mp
  show c.toNat = 48
  omega

/-! ### Lists of digits -/

theorem digitsValue_cons (c : Char) (rest : List Char) :
    digitsValue (c :: rest) = 10 ^ rest.length * digitsValue [c] + digitsValue rest :=
  digitsValue_append [c] rest

theorem digitsValue_lt {digits : List Char} (h : ∀ c ∈ digits, c.isDigit) :
    digitsValue digits < 10 ^ digits.length := by
  induction digits with
  | nil => decide
  | cons c rest ih =>
      have hrest := ih fun d hd => h d (List.mem_cons_of_mem _ hd)
      have hc := toNat_of_isDigit (h c List.mem_cons_self)
      have hdigit : digitsValue [c] ≤ 9 := by
        rw [digitsValue_singleton]
        omega
      calc digitsValue (c :: rest)
          = 10 ^ rest.length * digitsValue [c] + digitsValue rest := digitsValue_cons c rest
        _ < 10 ^ rest.length * 9 + 10 ^ rest.length :=
          Nat.add_lt_add_of_le_of_lt (Nat.mul_le_mul_left _ hdigit) hrest
        _ = 10 ^ (c :: rest).length := by
          rw [List.length_cons, Nat.pow_succ]
          omega

theorem pow_le_digitsValue {c : Char} (hc : c.isDigit) (hne : c ≠ '0') (rest : List Char) :
    10 ^ rest.length ≤ digitsValue (c :: rest) := by
  have hpos : 1 ≤ digitsValue [c] := Nat.one_le_iff_ne_zero.mpr fun h =>
    hne (eq_zero_of_digitsValue_singleton hc h)
  rw [digitsValue_cons]
  exact Nat.le_add_right_of_le (Nat.le_mul_of_pos_right _ hpos)

/-- The quotient and the remainder make up one number only. -/
theorem eq_of_mul_add_eq {m a a' r r' : Nat} (hr : r < m) (hr' : r' < m)
    (h : m * a + r = m * a' + r') : a = a' ∧ r = r' := by
  have hm : 0 < m := Nat.zero_lt_of_lt hr
  obtain ⟨ha, hrest⟩ := (Nat.div_mod_unique hm).mpr ⟨(Nat.add_comm r (m * a)).trans h, hr⟩
  obtain ⟨ha', hrest'⟩ := (Nat.div_mod_unique hm).mpr ⟨Nat.add_comm r' (m * a'), hr'⟩
  exact ⟨ha.symm.trans ha', hrest.symm.trans hrest'⟩

/-- Lists of as many digits denote different numbers unless they are the same. -/
theorem eq_of_digitsValue_eq {digits digits' : List Char} (h : ∀ c ∈ digits, c.isDigit)
    (h' : ∀ c ∈ digits', c.isDigit) (hlength : digits.length = digits'.length)
    (hvalue : digitsValue digits = digitsValue digits') : digits = digits' := by
  induction digits generalizing digits' with
  | nil => exact (List.length_eq_zero_iff.mp hlength.symm).symm
  | cons c rest ih =>
      cases digits' with
      | nil => cases hlength
      | cons c' rest' =>
          have hlength : rest.length = rest'.length := Nat.succ.inj hlength
          have hrest := fun d hd => h d (List.mem_cons_of_mem c hd)
          have hrest' := fun d hd => h' d (List.mem_cons_of_mem c' hd)
          have hlt := digitsValue_lt hrest
          have hlt' := digitsValue_lt hrest'
          rw [digitsValue_cons, digitsValue_cons c', hlength] at hvalue
          rw [hlength] at hlt
          obtain ⟨hfirst, hlast⟩ := eq_of_mul_add_eq hlt hlt' hvalue
          rw [digitsValue_singleton, digitsValue_singleton] at hfirst
          have hc := toNat_of_isDigit (h c List.mem_cons_self)
          have hc' := toNat_of_isDigit (h' c' List.mem_cons_self)
          have hsame : c = c' := Char.toNat_inj.mp (by omega)
          rw [hsame, ih hrest hrest' hlength hlast]

theorem head?_append_of_ne_nil {front : List Char} (h : front ≠ []) (back : List Char) :
    (front ++ back).head? = front.head? := by
  rw [List.head?_append, Option.or_of_isSome (List.isSome_head?.mpr h)]

theorem getLast?_append_of_ne_nil (front : List Char) {back : List Char} (h : back ≠ []) :
    (front ++ back).getLast? = back.getLast? := by
  rw [List.getLast?_append, Option.or_of_isSome (List.getLast?_isSome.mpr h)]

/-- Digits that denote a multiple of ten end in zero. -/
theorem getLast?_of_ten_dvd {digits : List Char} (h : ∀ c ∈ digits, c.isDigit) (hne : digits ≠ [])
    (hdvd : 10 ∣ digitsValue digits) : digits.getLast? = some '0' := by
  obtain rfl | ⟨front, c, rfl⟩ := List.eq_nil_or_concat digits
  · exact absurd rfl hne
  rw [List.concat_eq_append] at h hdvd ⊢
  have hc : c.isDigit := h c (List.mem_append_right _ (List.mem_singleton_self c))
  have hbounds := toNat_of_isDigit hc
  rw [digitsValue_append, List.length_singleton, Nat.pow_one] at hdvd
  have hzero : digitsValue [c] = 0 := by
    rw [digitsValue_singleton] at hdvd ⊢
    omega
  rw [getLast?_append_of_ne_nil front (List.cons_ne_nil c []),
    eq_zero_of_digitsValue_singleton hc hzero]
  rfl

/-- That digits there are do not begin with a zero, unless it is the only one. -/
def Leads (digits : List Char) : Prop :=
  ∃ c rest, digits = c :: rest ∧ (c = '0' → rest = [])

theorem leads_of_head? {digits : List Char} (hne : digits ≠ []) (h : digits.head? ≠ some '0') :
    Leads digits := by
  obtain ⟨c, rest, rfl⟩ := List.exists_cons_of_ne_nil hne
  exact ⟨c, rest, rfl, fun hc => absurd (congrArg some hc) h⟩

theorem Leads.length_le {digits digits' : List Char} (hlead : Leads digits)
    (h : ∀ c ∈ digits, c.isDigit) (h' : ∀ c ∈ digits', c.isDigit) (hne : digits' ≠ [])
    (hvalue : digitsValue digits = digitsValue digits') : digits.length ≤ digits'.length := by
  obtain ⟨c, rest, rfl, hzero⟩ := hlead
  by_cases hc : c = '0'
  · rw [hzero hc]
    exact List.length_pos_iff.mpr hne
  · have hlt : 10 ^ rest.length < 10 ^ digits'.length :=
      calc 10 ^ rest.length ≤ digitsValue (c :: rest) :=
            pow_le_digitsValue (h c List.mem_cons_self) hc rest
        _ = digitsValue digits' := hvalue
        _ < 10 ^ digits'.length := digitsValue_lt h'
    exact (Nat.pow_lt_pow_iff_right (by decide)).mp hlt

/-- Without zeros in front the number determines the digits. -/
theorem Leads.eq_of_digitsValue_eq {digits digits' : List Char} (hlead : Leads digits)
    (hlead' : Leads digits') (h : ∀ c ∈ digits, c.isDigit) (h' : ∀ c ∈ digits', c.isDigit)
    (hvalue : digitsValue digits = digitsValue digits') : digits = digits' := by
  have hne : digits ≠ [] := by
    obtain ⟨c, rest, rfl, -⟩ := hlead
    exact List.cons_ne_nil c rest
  have hne' : digits' ≠ [] := by
    obtain ⟨c, rest, rfl, -⟩ := hlead'
    exact List.cons_ne_nil c rest
  refine Text.eq_of_digitsValue_eq h h' (Nat.le_antisymm ?_ ?_) hvalue
  · exact hlead.length_le h h' hne' hvalue
  · exact hlead'.length_le h' h hne hvalue.symm

/-- The digits of a number do not begin with a zero, unless the number is zero. -/
theorem head?_toDigits_ne {n : Nat} (hn : n ≠ 0) : (Nat.toDigits 10 n).head? ≠ some '0' := by
  induction n using Nat.strong_induction_on with
  | _ n ih =>
      by_cases hsmall : n < 10
      · rw [Nat.toDigits_of_lt_base hsmall, List.head?_cons]
        intro h
        exact hn (Nat.digitChar_eq_zero.mp (Option.some.inj h))
      · have hten : 10 ≤ n := Nat.not_lt.mp hsmall
        rw [Nat.toDigits_of_base_le (by decide) hten, head?_append_of_ne_nil Nat.toDigits_ne_nil]
        exact ih (n / 10) (Nat.div_lt_self (by omega) (by decide)) (by omega)

/-- The digits of a number have no zeros in front of others. -/
theorem leads_toDigits (n : Nat) : Leads (Nat.toDigits 10 n) := by
  by_cases hn : n = 0
  · rw [hn]
    exact ⟨'0', [], rfl, fun _ => rfl⟩
  · exact leads_of_head? Nat.toDigits_ne_nil (head?_toDigits_ne hn)

end Text

namespace Numeral

/-! ### Numerals -/

/-- Numerals without superfluous zeros: none in front of another digit, none at the end of a
fraction. -/
structure Tight (n : Numeral) : Prop extends n.WellFormed where
  leads : Text.Leads n.whole
  trailing : n.fraction.getLast? ≠ some '0'

variable {n n' : Numeral}

theorem ten_not_dvd (h : n.Tight) (hne : n.fraction ≠ []) :
    ¬10 ∣ Text.digitsValue (n.whole ++ n.fraction) := by
  intro hdvd
  have hlast := Text.getLast?_of_ten_dvd h.digits h.nonempty hdvd
  rw [Text.getLast?_append_of_ne_nil _ hne] at hlast
  exact h.trailing hlast

/-- The value in whole numbers: the fraction takes as many powers of ten from it as it has digits. -/
theorem value_mul_pow (n : Numeral) :
    n.value * 10 ^ n.fraction.length = Text.digitsValue (n.whole ++ n.fraction) * 10 ^ n.power := by
  have hten : (10 : ℚ) ≠ 0 := by norm_num
  rw [value, mul_assoc, ← zpow_natCast, ← zpow_add₀ hten, Int.sub_add_cancel]

theorem digitsValue_mul_pow (hpower : n.power = n'.power) (hvalue : n.value = n'.value) :
    Text.digitsValue (n.whole ++ n.fraction) * 10 ^ n'.fraction.length =
      Text.digitsValue (n'.whole ++ n'.fraction) * 10 ^ n.fraction.length := by
  have hten : (10 : ℚ) ^ n.power ≠ 0 := zpow_ne_zero _ (by norm_num)
  have hn := n.value_mul_pow
  have hn' := n'.value_mul_pow
  rw [← hvalue, ← hpower] at hn'
  have hrational : (Text.digitsValue (n.whole ++ n.fraction) * 10 ^ n'.fraction.length : ℚ) =
      Text.digitsValue (n'.whole ++ n'.fraction) * 10 ^ n.fraction.length := by
    apply mul_right_cancel₀ hten
    calc (Text.digitsValue (n.whole ++ n.fraction) * 10 ^ n'.fraction.length * 10 ^ n.power : ℚ)
        = n.value * 10 ^ n.fraction.length * 10 ^ n'.fraction.length := by rw [hn]; ring
      _ = n.value * 10 ^ n'.fraction.length * 10 ^ n.fraction.length := by ring
      _ = Text.digitsValue (n'.whole ++ n'.fraction) * 10 ^ n.fraction.length * 10 ^ n.power := by
        rw [hn']
        ring
  exact_mod_cast hrational

theorem Tight.fraction_length_le (h' : n'.Tight) (hpower : n.power = n'.power)
    (hvalue : n.value = n'.value) : n'.fraction.length ≤ n.fraction.length := by
  by_contra hlt
  obtain ⟨more, hmore⟩ := Nat.exists_eq_add_of_lt (Nat.not_le.mp hlt)
  have hne : n'.fraction ≠ [] := by
    rw [← List.length_pos_iff]
    omega
  have hmul := digitsValue_mul_pow hpower hvalue
  rw [hmore, Nat.pow_succ, Nat.pow_add] at hmul
  refine ten_not_dvd h' hne ⟨Text.digitsValue (n.whole ++ n.fraction) * 10 ^ more, ?_⟩
  apply Nat.eq_of_mul_eq_mul_right (Nat.pow_pos (show 0 < 10 by decide))
  rw [← hmul]
  ring

/-- **The number determines the numeral** among those with the same power of ten. -/
theorem Tight.eq_of_value_eq (h : n.Tight) (h' : n'.Tight) (hpower : n.power = n'.power)
    (hvalue : n.value = n'.value) : n.whole = n'.whole ∧ n.fraction = n'.fraction := by
  have hlength : n.fraction.length = n'.fraction.length :=
    Nat.le_antisymm (h.fraction_length_le hpower.symm hvalue.symm)
      (h'.fraction_length_le hpower hvalue)
  have hpos : 0 < 10 ^ n'.fraction.length := Nat.pow_pos (by decide)
  have hdigits := digitsValue_mul_pow hpower hvalue
  rw [hlength] at hdigits
  have hsame := Nat.eq_of_mul_eq_mul_right hpos hdigits
  rw [Text.digitsValue_append, Text.digitsValue_append n'.whole, hlength] at hsame
  have hlt := Text.digitsValue_lt h.fraction
  have hlt' := Text.digitsValue_lt h'.fraction
  rw [hlength] at hlt
  obtain ⟨hwhole, hfraction⟩ := Text.eq_of_mul_add_eq hlt hlt' hsame
  exact ⟨h.leads.eq_of_digitsValue_eq h'.leads h.whole h'.whole hwhole,
    Text.eq_of_digitsValue_eq h.fraction h'.fraction hlength hfraction⟩

/-- Without a power of ten there is no fraction just where the number is a whole one. -/
theorem Tight.fraction_eq_nil_iff (h : n.Tight) (hpower : n.power = 0) :
    n.fraction = [] ↔ ∃ k : ℕ, n.value = k := by
  have hvalue := n.value_mul_pow
  rw [hpower, zpow_zero, mul_one] at hvalue
  constructor
  · intro hnil
    refine ⟨Text.digitsValue (n.whole ++ n.fraction), ?_⟩
    rw [← hvalue, hnil, List.length_nil, pow_zero, mul_one]
  · rintro ⟨k, hk⟩
    by_contra hne
    obtain ⟨more, hmore⟩ := Nat.exists_eq_succ_of_ne_zero (List.length_pos_iff.mpr hne).ne'
    rw [hk, hmore] at hvalue
    have hnatural : k * 10 ^ more.succ = Text.digitsValue (n.whole ++ n.fraction) := by
      exact_mod_cast hvalue
    refine ten_not_dvd h hne ⟨k * 10 ^ more, ?_⟩
    rw [← hnatural, Nat.pow_succ]
    ring

end Numeral

end StraightLine
