import Mathlib
import Columnar.Decimal.Wide
/-!
# Double-width arithmetic is exact

A pair of words `hi, lo` stands for the number `hi * 2 ^ 128 + lo`. The product of two words is
formed in four partial products; none of them, and none of the sums that put them together, leaves
a word. The division consumes the low word bit by bit: what has been consumed is always the
quotient so far times the divisor, and a remainder smaller than the divisor.
-/

namespace Columnar.Word

/-! ### The product -/

lemma toNat_lowHalf (a : Word) : a.lowHalf.toNat = a.toNat % 2 ^ 64 := by
  rw [lowHalf, BitVec.toNat_and]
  exact Nat.and_two_pow_sub_one_eq_mod _ 64

lemma toNat_highHalf (a : Word) : a.highHalf.toNat = a.toNat / 2 ^ 64 := by
  rw [highHalf, BitVec.toNat_ushiftRight, Nat.shiftRight_eq_div_pow]

lemma toNat_lowHalf_lt (a : Word) : a.lowHalf.toNat < 2 ^ 64 := by
  rw [toNat_lowHalf]
  exact Nat.mod_lt _ (by decide)

lemma toNat_highHalf_lt (a : Word) : a.highHalf.toNat < 2 ^ 64 := by
  rw [toNat_highHalf]
  exact Nat.div_lt_of_lt_mul a.isLt

lemma toNat_eq_halves (a : Word) : a.toNat = a.highHalf.toNat * 2 ^ 64 + a.lowHalf.toNat := by
  rw [toNat_lowHalf, toNat_highHalf, Nat.div_add_mod']

/-- The product of two half words fits a word. -/
lemma toNat_mul_of_lt {x y : Word} (hx : x.toNat < 2 ^ 64) (hy : y.toNat < 2 ^ 64) :
    (x * y).toNat = x.toNat * y.toNat := by
  have hle : x.toNat * y.toNat ≤ (2 ^ 64 - 1) * (2 ^ 64 - 1) :=
    Nat.mul_le_mul (by omega) (by omega)
  rw [BitVec.toNat_mul, Nat.mod_eq_of_lt (by omega)]

/-- Two half words, put side by side. -/
lemma toNat_lowHalf_or_shiftLeft (x y : Word) :
    (x.lowHalf ||| y <<< 64).toNat = x.toNat % 2 ^ 64 + (y.toNat % 2 ^ 64) * 2 ^ 64 := by
  have hlt : x.toNat % 2 ^ 64 < 2 ^ 64 := Nat.mod_lt _ (by decide)
  have hshift : y.toNat <<< 64 % 2 ^ 128 = (y.toNat % 2 ^ 64) <<< 64 := by
    rw [Nat.shiftLeft_eq, Nat.shiftLeft_eq]
    omega
  rw [BitVec.toNat_or, toNat_lowHalf, BitVec.toNat_shiftLeft, hshift, Nat.or_comm,
    ← Nat.shiftLeft_add_eq_or_of_lt hlt, Nat.shiftLeft_eq, Nat.add_comm]

/-- The sum of partial products, carried at every half word. -/
lemma carry_partialProducts (high crossA crossB low middle : ℕ)
    (hmiddle : middle = low / 2 ^ 64 + crossA % 2 ^ 64 + crossB % 2 ^ 64) :
    (high + crossA / 2 ^ 64 + crossB / 2 ^ 64 + middle / 2 ^ 64) * 2 ^ 128
        + (low % 2 ^ 64 + (middle % 2 ^ 64) * 2 ^ 64)
      = high * 2 ^ 128 + (crossA + crossB) * 2 ^ 64 + low := by
  omega

/-- The product is that of the halves, put together. -/
lemma sum_partialProducts (a b : Word) :
    (a.highHalf * b.highHalf).toNat * 2 ^ 128
        + ((a.highHalf * b.lowHalf).toNat + (a.lowHalf * b.highHalf).toNat) * 2 ^ 64
        + (a.lowHalf * b.lowHalf).toNat
      = a.toNat * b.toNat := by
  rw [toNat_mul_of_lt a.toNat_highHalf_lt b.toNat_highHalf_lt,
    toNat_mul_of_lt a.toNat_highHalf_lt b.toNat_lowHalf_lt,
    toNat_mul_of_lt a.toNat_lowHalf_lt b.toNat_highHalf_lt,
    toNat_mul_of_lt a.toNat_lowHalf_lt b.toNat_lowHalf_lt, a.toNat_eq_halves, b.toNat_eq_halves]
  ring

/-- The sum of what overlaps in the middle has three terms of half a word each. -/
lemma toNat_middle (low crossA crossB : Word) :
    (low.highHalf + crossA.lowHalf + crossB.lowHalf).toNat
      = low.toNat / 2 ^ 64 + crossA.toNat % 2 ^ 64 + crossB.toNat % 2 ^ 64 := by
  have h1 := low.toNat_highHalf_lt
  have h2 := crossA.toNat_lowHalf_lt
  have h3 := crossB.toNat_lowHalf_lt
  rw [← toNat_highHalf, ← toNat_lowHalf, ← toNat_lowHalf]
  simp only [BitVec.toNat_add]
  omega

/-- The terms of the high word add up to the product without its low word, and so fit a word. -/
lemma sum_high_lt (a b : Word) {middle : ℕ}
    (hmiddle : middle = (a.lowHalf * b.lowHalf).toNat / 2 ^ 64
      + (a.highHalf * b.lowHalf).toNat % 2 ^ 64 + (a.lowHalf * b.highHalf).toNat % 2 ^ 64) :
    (a.highHalf * b.highHalf).toNat + (a.highHalf * b.lowHalf).toNat / 2 ^ 64
      + (a.lowHalf * b.highHalf).toNat / 2 ^ 64 + middle / 2 ^ 64 < 2 ^ 128 := by
  have hcarry := carry_partialProducts (a.highHalf * b.highHalf).toNat _ _ _ _ hmiddle
  rw [sum_partialProducts] at hcarry
  have hlt : a.toNat * b.toNat < 2 ^ 128 * 2 ^ 128 := Nat.mul_lt_mul'' a.isLt b.isLt
  omega

/-- The product as its high and its low word loses nothing. -/
theorem wideMul_exact (a b : Word) :
    (wideMul a b).1.toNat * 2 ^ 128 + (wideMul a b).2.toNat = a.toNat * b.toNat := by
  let low := a.lowHalf * b.lowHalf
  let crossA := a.highHalf * b.lowHalf
  let crossB := a.lowHalf * b.highHalf
  let high := a.highHalf * b.highHalf
  let middle := low.highHalf + crossA.lowHalf + crossB.lowHalf
  have hmiddle := toNat_middle low crossA crossB
  have hhi : (high + crossA.highHalf + crossB.highHalf + middle.highHalf).toNat
      = high.toNat + crossA.toNat / 2 ^ 64 + crossB.toNat / 2 ^ 64 + middle.toNat / 2 ^ 64 := by
    have hlt : high.toNat + crossA.toNat / 2 ^ 64 + crossB.toNat / 2 ^ 64
        + middle.toNat / 2 ^ 64 < 2 ^ 128 := sum_high_lt a b hmiddle
    simp only [BitVec.toNat_add, toNat_highHalf]
    omega
  rw [← sum_partialProducts, ← carry_partialProducts high.toNat _ _ _ _ hmiddle,
    ← toNat_lowHalf_or_shiftLeft, ← hhi]
  rfl

/-! ### The quotient -/

/-- The number that bits denote, the most significant first. -/
def ofBitsDown : List Bool → ℕ
  | [] => 0
  | bit :: bits => bit.toNat * 2 ^ bits.length + ofBitsDown bits

/-- The lowest bits of a word, read downwards. -/
lemma ofBitsDown_range (a : Word) (n : ℕ) :
    ofBitsDown ((List.range n).reverse.map a.getLsbD) = a.toNat % 2 ^ n := by
  induction n with
  | zero => simp [ofBitsDown, Nat.mod_one]
  | succ n ih =>
    rw [List.range_succ, List.reverse_append, List.reverse_singleton, List.singleton_append,
      List.map_cons, ofBitsDown, ih, Nat.mod_pow_succ, ← BitVec.testBit_toNat, Nat.toNat_testBit]
    simp only [List.length_map, List.length_reverse, List.length_range]
    ring

@[simp] lemma ofBitsDown_bitsDown (a : Word) : ofBitsDown a.bitsDown = a.toNat := by
  rw [bitsDown, ofBitsDown_range, Nat.mod_eq_of_lt a.isLt]

@[simp] lemma length_bitsDown (a : Word) : a.bitsDown.length = 128 := by
  simp [bitsDown]

/-- The word moved up by one bit, with a new lowest bit. -/
lemma toNat_shiftLeft_one_or (a : Word) (bit : Bool) :
    (a <<< 1 ||| (if bit then 1 else 0)).toNat = (2 * a.toNat + bit.toNat) % 2 ^ 128 := by
  have hlt : bit.toNat < 2 ^ 1 := by cases bit <;> decide
  have hbit : (if bit then 1 else 0 : Word).toNat = bit.toNat := by cases bit <;> rfl
  have hshift : a.toNat <<< 1 % 2 ^ 128 = (a.toNat % 2 ^ 127) <<< 1 := by
    rw [Nat.shiftLeft_eq, Nat.shiftLeft_eq]
    omega
  rw [BitVec.toNat_or, BitVec.toNat_shiftLeft, hbit, hshift, ← Nat.shiftLeft_add_eq_or_of_lt hlt,
    Nat.shiftLeft_eq]
  omega

namespace Division

/-- What a division has consumed: the quotient times the divisor, and the remainder. -/
def consumed (divisor : Word) (s : Division) : ℕ :=
  s.quotient.toNat * divisor.toNat + s.remainder.toNat

/-- A step consumes one more bit, as long as the quotient has room for it. -/
theorem step_spec {divisor : Word} {s : Division} (bit : Bool)
    (hr : s.remainder.toNat < divisor.toNat) (hq : s.quotient.toNat < 2 ^ 127) :
    (step divisor s bit).remainder.toNat < divisor.toNat ∧
      (step divisor s bit).quotient.toNat ≤ 2 * s.quotient.toNat + 1 ∧
      (step divisor s bit).consumed divisor = 2 * s.consumed divisor + bit.toNat := by
  have hd := divisor.isLt
  have hbit : bit.toNat ≤ 1 := Bool.toNat_le bit
  have hzero : (s.quotient <<< 1).toNat = 2 * s.quotient.toNat := by
    rw [BitVec.toNat_shiftLeft, Nat.shiftLeft_eq]
    omega
  have hone : (s.quotient <<< 1 ||| 1).toNat = 2 * s.quotient.toNat + 1 := by
    have := toNat_shiftLeft_one_or s.quotient true
    simp only [if_true, Bool.toNat_true] at this
    omega
  have hmsb : s.remainder.msb = decide (2 ^ 127 ≤ s.remainder.toNat) := BitVec.msb_eq_decide _
  have hshift := toNat_shiftLeft_one_or s.remainder bit
  simp only [step]
  generalize (s.remainder <<< 1 ||| if bit = true then 1 else 0) = shifted at hshift ⊢
  -- the remainder with the new bit may be longer than a word, and is shorter than two divisors
  by_cases hsub : divisor.toNat ≤ 2 * s.remainder.toNat + bit.toNat
  · have hcond : (s.remainder.msb || decide (divisor ≤ shifted)) = true := by
      simp only [hmsb, BitVec.le_def, Bool.or_eq_true, decide_eq_true_eq]
      omega
    have hdiff : (shifted - divisor).toNat = 2 * s.remainder.toNat + bit.toNat - divisor.toNat := by
      rw [BitVec.toNat_sub]
      omega
    rw [if_pos hcond]
    simp only [consumed, hdiff, hone]
    refine ⟨by omega, le_rfl, ?_⟩
    have hmul : (2 * s.quotient.toNat + 1) * divisor.toNat
        = 2 * (s.quotient.toNat * divisor.toNat) + divisor.toNat := by ring
    omega
  · have hcond : ¬ (s.remainder.msb || decide (divisor ≤ shifted)) = true := by
      simp only [hmsb, BitVec.le_def, Bool.or_eq_true, decide_eq_true_eq]
      omega
    rw [if_neg hcond]
    simp only [consumed, hzero]
    refine ⟨by omega, by omega, ?_⟩
    rw [Nat.mul_assoc]
    omega

/-- Consuming bits one by one, from the first on. -/
theorem foldl_step_spec {divisor : Word} (bits : List Bool) {s : Division}
    (hr : s.remainder.toNat < divisor.toNat)
    (hq : (s.quotient.toNat + 1) * 2 ^ bits.length ≤ 2 ^ 128) :
    (bits.foldl (step divisor) s).remainder.toNat < divisor.toNat ∧
      (bits.foldl (step divisor) s).consumed divisor
        = s.consumed divisor * 2 ^ bits.length + ofBitsDown bits := by
  induction bits generalizing s with
  | nil => exact ⟨hr, by simp [ofBitsDown]⟩
  | cons bit bits ih =>
    rw [List.length_cons, pow_succ] at hq
    have hpos : 0 < 2 ^ bits.length := Nat.two_pow_pos _
    have hroom : s.quotient.toNat < 2 ^ 127 := by
      have : (s.quotient.toNat + 1) * 2 ≤ 2 ^ 128 := by nlinarith
      omega
    obtain ⟨hr', hq', hstep⟩ := step_spec bit hr hroom
    obtain ⟨hlt, hfold⟩ := ih hr' (by nlinarith)
    refine ⟨hlt, ?_⟩
    rw [List.foldl_cons, hfold, hstep, List.length_cons, ofBitsDown, pow_succ]
    ring

end Division

/-- With a high word below the divisor there is a quotient. -/
lemma exists_wideDiv_eq_some {hi divisor : Word} (lo : Word) (hlt : hi.toNat < divisor.toNat) :
    ∃ quotient, wideDiv hi lo divisor = some quotient ∧
      quotient.toNat = (hi.toNat * 2 ^ 128 + lo.toNat) / divisor.toNat := by
  have hpos : 0 < divisor.toNat := by omega
  have hcond : ¬ (divisor = 0 ∨ divisor ≤ hi) := by
    rintro (rfl | hle)
    · exact absurd hpos (by decide)
    · exact absurd (BitVec.le_def.1 hle) (by omega)
  rw [wideDiv, if_neg hcond]
  by_cases hzero : hi = 0
  · subst hzero
    exact ⟨_, if_pos rfl, by simp⟩
  · obtain ⟨hr, hfold⟩ := Division.foldl_step_spec (s := ⟨hi, 0⟩) lo.bitsDown hlt (by simp)
    refine ⟨_, if_neg hzero, ?_⟩
    generalize lo.bitsDown.foldl (Division.step divisor) ⟨hi, 0⟩ = done at hr hfold ⊢
    have hnone : (0 : Word).toNat = 0 := rfl
    simp only [Division.consumed, ofBitsDown_bitsDown, length_bitsDown, hnone, Nat.zero_mul,
      Nat.zero_add] at hfold
    rw [← hfold, Nat.add_comm, Nat.add_mul_div_right _ _ hpos, Nat.div_eq_of_lt hr, Nat.zero_add]

/-- The division finds the quotient exactly if there is one and it fits a word. -/
theorem wideDiv_eq_some_iff (hi lo divisor quotient : Word) :
    wideDiv hi lo divisor = some quotient ↔ 0 < divisor.toNat ∧
      quotient.toNat = (hi.toNat * 2 ^ 128 + lo.toNat) / divisor.toNat := by
  by_cases hlt : hi.toNat < divisor.toNat
  · obtain ⟨q, hq, hvalue⟩ := exists_wideDiv_eq_some lo hlt
    rw [hq, Option.some.injEq, ← hvalue, ← BitVec.toNat_inj]
    constructor
    · intro h
      exact ⟨by omega, h.symm⟩
    · rintro ⟨-, h⟩
      exact h.symm
  · -- there is no quotient by zero, and any other one is too large
    have hnone : wideDiv hi lo divisor = none := by
      rw [wideDiv, if_pos (Or.inr (BitVec.le_def.2 (not_lt.1 hlt)))]
    rw [hnone]
    constructor
    · intro h
      cases h
    · rintro ⟨hpos, h⟩
      have hlarge : 2 ^ 128 ≤ (hi.toNat * 2 ^ 128 + lo.toNat) / divisor.toNat := by
        rw [Nat.le_div_iff_mul_le hpos]
        omega
      have := quotient.isLt
      omega

end Columnar.Word
