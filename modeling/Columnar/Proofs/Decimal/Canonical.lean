import Columnar.Proofs.Decimal.Numeral
/-!
# The text of a decimal is canonical

A numeral denotes a rational number, and is canonical if it is written without a plus sign, without
leading zeros and without zeros at the end of its fraction. The text of a decimal, the smallest one
included, spells a canonical numeral for exactly the decimal. Since the characters of a numeral
determine the number it denotes, no two decimals have the same text.
-/

namespace Columnar.Decimal

namespace Numeral

/-- The number that a numeral denotes. -/
def value (n : Numeral) : ℚ :=
  (if n.sign.isNegative then -1 else 1) *
    (Nat.ofDigitChars 10 n.whole 0
      + (Nat.ofDigitChars 10 n.decimals 0 : ℚ) / 10 ^ n.decimals.length)

/-- The numeral is written in the shortest way that keeps a digit before the point. -/
structure Canonical (n : Numeral) : Prop where
  sign_ne_plus : n.sign ≠ .plus
  whole_ne_nil : n.whole ≠ []
  /-- The whole part begins with a zero only if it is zero. -/
  whole_eq_zero : n.whole.head? = some '0' → n.whole = ['0']
  /-- A point is followed by one to ten digits, of which the last is not zero. -/
  fraction_spec : ∀ digits ∈ n.fraction,
    1 ≤ digits.length ∧ digits.length ≤ 10 ∧ digits.getLast? ≠ some '0'

/-! ### What a numeral denotes -/

/-- The characters of a numeral determine the number it denotes. -/
lemma value_eq_of_chars_eq {m n : Numeral} (h : m.chars = n.chars) : m.value = n.value := by
  have hsign := m.splitSign_chars.symm.trans ((congrArg splitSign h).trans n.splitSign_chars)
  obtain ⟨hnegative, hunsigned⟩ := Prod.mk.inj hsign
  have hpoint := m.splitPoint_unsignedChars.symm.trans
    ((congrArg splitPoint hunsigned).trans n.splitPoint_unsignedChars)
  obtain ⟨hwhole, hdecimals⟩ := Prod.mk.inj hpoint
  rw [value, value, hnegative, hwhole, hdecimals]

/-- A numeral of at most ten decimals denotes its units. -/
lemma value_mul_eq_signedUnits {n : Numeral} (h : n.decimals.length ≤ 10) :
    n.value * 10 ^ 10 = n.signedUnits := by
  have hunits : (Nat.ofDigitChars 10 n.whole 0
      + (Nat.ofDigitChars 10 n.decimals 0 : ℚ) / 10 ^ n.decimals.length) * 10 ^ 10
        = (n.units : ℚ) := by
    have hpow : (10 : ℚ) ^ 10 = 10 ^ n.decimals.length * 10 ^ (10 - n.decimals.length) := by
      rw [← pow_add, Nat.add_sub_cancel' h]
    have hne : (10 : ℚ) ^ n.decimals.length ≠ 0 := pow_ne_zero _ (by norm_num)
    rw [units, add_mul]
    push_cast
    congr 1
    rw [hpow, ← mul_assoc, div_mul_cancel₀ _ hne]
  rw [value, mul_assoc, hunits, signedUnits, signed]
  split_ifs <;> simp

end Numeral

/-! ### The numeral that is written -/

/-- A whole part that is written with a zero in front is zero. -/
lemma eq_zero_of_head?_toDigits {n : ℕ} (h : (Nat.toDigits 10 n).head? = some '0') : n = 0 := by
  induction n using Nat.strong_induction_on with
  | _ n ih =>
    rcases Nat.lt_or_ge n 10 with hlt | hge
    · rw [Nat.toDigits_of_lt_base hlt, List.head?_singleton, Option.some.injEq] at h
      have hdigit : ∀ m < 10, Nat.digitChar m = '0' → m = 0 := by decide
      exact hdigit n hlt h
    · -- the first digit of a longer number is that of its tenth
      rw [Nat.toDigits_of_base_le (by decide) hge,
        List.head?_append_of_ne_nil _ Nat.toDigits_ne_nil] at h
      have := ih (n / 10) (by omega) h
      omega

lemma getLast?_trimmedFraction_ne (n : ℕ) : (trimmedFraction n).getLast? ≠ some '0' := by
  intro h
  rw [trimmedFraction, List.getLast?_reverse] at h
  exact absurd (Text.eq_false_of_mem_head?_dropWhile h) (by decide)

/-- The numeral that a decimal is written as. -/
def numeral (d : Decimal) : Numeral where
  sign := if d.raw < 0 then .minus else .absent
  whole := Nat.toDigits 10 (d.raw.natAbs / factor)
  fraction :=
    if d.raw.natAbs % factor = 0 then none else some (trimmedFraction (d.raw.natAbs % factor))
  isDigit_of_mem_whole _ hc := Nat.isDigit_of_mem_toDigits (by decide) le_rfl hc
  isDigit_of_mem_fraction c hc := by
    split_ifs at hc
    · exact absurd hc List.not_mem_nil
    · exact isDigit_of_mem_trimmedFraction hc
  ne_nil h := Nat.toDigits_ne_nil (List.append_eq_nil_iff.1 h).1

lemma toList_text (d : Decimal) : d.text.toList = d.numeral.chars := by
  rw [text, String.toList_ofList]
  simp only [textChars, Numeral.chars, Numeral.unsignedChars, numeral, List.append_assoc]
  congr 1
  · split_ifs <;> rfl
  · congr 1
    split_ifs <;> rfl

/-- The digits after the point, none if the decimal is whole. -/
lemma decimals_numeral (d : Decimal) :
    d.numeral.decimals = trimmedFraction (d.raw.natAbs % factor) := by
  have hlt : d.raw.natAbs % factor < factor := Nat.mod_lt _ (by decide)
  show (if d.raw.natAbs % factor = 0 then none
    else some (trimmedFraction (d.raw.natAbs % factor))).getD [] = _
  split_ifs with hzero
  · exact ((trimmedFraction_eq_nil_iff hlt).2 hzero).symm
  · rfl

lemma signedUnits_numeral (d : Decimal) : d.numeral.signedUnits = d.raw := by
  have hnegative : d.numeral.sign.isNegative = decide (d.raw < 0) := by
    by_cases h : d.raw < 0 <;> simp [numeral, Sign.isNegative, h]
  have hunits : d.numeral.units = d.raw.natAbs := by
    rw [← Numeral.numeralUnits_eq_units, decimals_numeral]
    exact numeralUnits_magnitude d.raw.natAbs
  rw [Numeral.signedUnits, hnegative, hunits, ← eq_signed]

lemma canonical_numeral (d : Decimal) : d.numeral.Canonical where
  sign_ne_plus := by
    by_cases h : d.raw < 0 <;> simp [numeral, h]
  whole_ne_nil := Nat.toDigits_ne_nil
  whole_eq_zero h := by
    have hzero : d.raw.natAbs / factor = 0 := eq_zero_of_head?_toDigits h
    show Nat.toDigits 10 (d.raw.natAbs / factor) = ['0']
    rw [hzero, Nat.toDigits_zero]
  fraction_spec digits h := by
    have hlt : d.raw.natAbs % factor < factor := Nat.mod_lt _ (by decide)
    have h : (if d.raw.natAbs % factor = 0 then none
      else some (trimmedFraction (d.raw.natAbs % factor))) = some digits := h
    split_ifs at h with hzero
    obtain rfl := Option.some.inj h
    refine ⟨?_, length_trimmedFraction_le hlt, getLast?_trimmedFraction_ne _⟩
    rw [Nat.one_le_iff_ne_zero, Ne, List.length_eq_zero_iff, trimmedFraction_eq_nil_iff hlt]
    exact hzero

/-- **The text of a decimal is exact and canonical.** It spells a canonical numeral, with a minus
sign just if the decimal is negative and with a point just if it is not whole, and this numeral
denotes exactly the decimal. Different decimals have different texts. -/
theorem text_canonical :
    (∀ d : Decimal, ∃ n : Numeral, d.text.toList = n.chars ∧ n.Canonical ∧
      (n.sign = .minus ↔ d.raw < 0) ∧
      (n.fraction.isSome ↔ ¬ (10 ^ 10 : ℤ) ∣ d.raw) ∧
      n.value * 10 ^ 10 = d.raw) ∧
      Function.Injective text := by
  have hvalue : ∀ d : Decimal, d.numeral.value * 10 ^ 10 = d.raw := by
    intro d
    have hlen : d.numeral.decimals.length ≤ 10 := by
      rw [decimals_numeral]
      exact length_trimmedFraction_le (Nat.mod_lt _ (by decide))
    rw [Numeral.value_mul_eq_signedUnits hlen, signedUnits_numeral]
  refine ⟨fun d => ⟨d.numeral, d.toList_text, d.canonical_numeral, ?_, ?_, hvalue d⟩, ?_⟩
  · by_cases h : d.raw < 0 <;> simp [numeral, h]
  · have hdvd : (10 ^ 10 : ℤ) ∣ d.raw ↔ d.raw.natAbs % factor = 0 := by
      rw [← Nat.dvd_iff_mod_eq_zero, ← Int.natCast_dvd]
      rfl
    rw [hdvd]
    by_cases h : d.raw.natAbs % factor = 0 <;> simp [numeral, h]
  · intro d e h
    have hchars : d.numeral.chars = e.numeral.chars := by
      rw [← toList_text, ← toList_text, h]
    have hraw : (d.raw : ℚ) = e.raw := by
      rw [← hvalue, ← hvalue, Numeral.value_eq_of_chars_eq hchars]
    obtain ⟨raw, hmin, hmax⟩ := d
    obtain ⟨raw', hmin', hmax'⟩ := e
    simpa using hraw

end Columnar.Decimal
