import Mathlib
import Columnar.Decimal.Text
/-!
# Digit strings

The number that a string of digits denotes, in the two places where a decimal has one. The whole
part is written without leading zeros and read back as it is. The fraction is written with leading
zeros up to ten digits and without zeros at the end, and read back by appending the missing zeros:
the digits that are left out and those that are put back are the same.
-/

namespace Columnar.Decimal

/-- The digits of a number as they are written in the fraction of a decimal. -/
def trimmedFraction (n : ℕ) : List Char :=
  ((fractionDigits n).reverse.dropWhile (· == '0')).reverse

/-- The number of units that a numeral with a whole part and a fraction denotes. -/
def numeralUnits (whole fraction : List Char) : ℕ :=
  digitsValue whole * factor + digitsValue fraction * 10 ^ (scale - fraction.length)

/-! ### Values of digit strings -/

lemma digitsValue_eq_ofDigitChars (digits : List Char) :
    digitsValue digits = Nat.ofDigitChars 10 digits 0 :=
  Nat.ofDigitChars_eq_foldl.symm

lemma digitsValue_toDigits (n : ℕ) : digitsValue (Nat.toDigits 10 n) = n := by
  rw [digitsValue_eq_ofDigitChars]
  exact Nat.ofDigitChars_ten_toDigits

lemma digitsValue_zeros_append (k : ℕ) (digits : List Char) :
    digitsValue (List.replicate k '0' ++ digits) = digitsValue digits := by
  simp only [digitsValue_eq_ofDigitChars, Nat.ofDigitChars_append, Nat.ofDigitChars_replicate_zero,
    mul_zero]

lemma digitsValue_append_zeros (digits : List Char) (k : ℕ) :
    digitsValue (digits ++ List.replicate k '0') = digitsValue digits * 10 ^ k := by
  simp only [digitsValue_eq_ofDigitChars, Nat.ofDigitChars_append, Nat.ofDigitChars_replicate_zero,
    mul_comm]

/-! ### The digits of a fraction -/

lemma length_toDigits_le_scale {n : ℕ} (hn : n < factor) : (Nat.toDigits 10 n).length ≤ scale :=
  (Nat.length_toDigits_le_iff (by decide) (by decide)).2 hn

lemma length_fractionDigits {n : ℕ} (hn : n < factor) : (fractionDigits n).length = scale := by
  have hle := length_toDigits_le_scale hn
  simp only [fractionDigits, List.length_append, List.length_replicate]
  omega

lemma digitsValue_fractionDigits (n : ℕ) : digitsValue (fractionDigits n) = n := by
  rw [fractionDigits, digitsValue_zeros_append, digitsValue_toDigits]

lemma isDigit_of_mem_fractionDigits {n : ℕ} {c : Char} (hc : c ∈ fractionDigits n) :
    c.isDigit = true := by
  rw [fractionDigits, List.mem_append] at hc
  rcases hc with hc | hc
  · rw [List.eq_of_mem_replicate hc]
    rfl
  · exact Nat.isDigit_of_mem_toDigits (by decide) le_rfl hc

/-- What is trimmed off a fraction are zeros. -/
lemma fractionDigits_eq_append (n : ℕ) :
    ∃ k, fractionDigits n = trimmedFraction n ++ List.replicate k '0' := by
  set p : Char → Bool := (· == '0')
  refine ⟨((fractionDigits n).reverse.takeWhile p).length, ?_⟩
  have hzeros : (fractionDigits n).reverse.takeWhile p
      = List.replicate ((fractionDigits n).reverse.takeWhile p).length '0' := by
    refine List.eq_replicate_of_mem fun c hc => ?_
    simpa [p] using List.mem_takeWhile_imp hc
  calc fractionDigits n
      = ((fractionDigits n).reverse.takeWhile p
          ++ (fractionDigits n).reverse.dropWhile p).reverse := by
        rw [List.takeWhile_append_dropWhile, List.reverse_reverse]
    _ = trimmedFraction n ++ ((fractionDigits n).reverse.takeWhile p).reverse := by
        rw [List.reverse_append, trimmedFraction]
    _ = _ := by rw [hzeros, List.reverse_replicate, List.length_replicate]

lemma isDigit_of_mem_trimmedFraction {n : ℕ} {c : Char} (hc : c ∈ trimmedFraction n) :
    c.isDigit = true := by
  obtain ⟨k, hk⟩ := fractionDigits_eq_append n
  exact isDigit_of_mem_fractionDigits (hk ▸ List.mem_append_left _ hc)

lemma length_trimmedFraction_le {n : ℕ} (hn : n < factor) : (trimmedFraction n).length ≤ scale := by
  obtain ⟨k, hk⟩ := fractionDigits_eq_append n
  have hlen := congrArg List.length hk
  rw [length_fractionDigits hn, List.length_append] at hlen
  omega

/-- A trimmed fraction denotes its number once the zeros are put back. -/
lemma digitsValue_trimmedFraction {n : ℕ} (hn : n < factor) :
    digitsValue (trimmedFraction n) * 10 ^ (scale - (trimmedFraction n).length) = n := by
  obtain ⟨k, hk⟩ := fractionDigits_eq_append n
  have hlen := congrArg List.length hk
  rw [length_fractionDigits hn, List.length_append, List.length_replicate] at hlen
  have hzeros : scale - (trimmedFraction n).length = k := by omega
  rw [hzeros, ← digitsValue_append_zeros, ← hk, digitsValue_fractionDigits]

/-- Nothing is left of a fraction of zero only. -/
lemma trimmedFraction_eq_nil_iff {n : ℕ} (hn : n < factor) : trimmedFraction n = [] ↔ n = 0 := by
  constructor
  · intro h
    have hvalue := digitsValue_trimmedFraction hn
    rw [h] at hvalue
    simpa [digitsValue] using hvalue.symm
  · rintro rfl
    decide

/-! ### The digits of a magnitude -/

/-- The whole part and the fraction of a magnitude, as they are written, denote the magnitude. -/
lemma numeralUnits_magnitude (n : ℕ) :
    numeralUnits (Nat.toDigits 10 (n / factor)) (trimmedFraction (n % factor)) = n := by
  have hlt : n % factor < factor := Nat.mod_lt n (by decide)
  rw [numeralUnits, digitsValue_toDigits, digitsValue_trimmedFraction hlt]
  exact Nat.div_add_mod' n factor

end Columnar.Decimal
