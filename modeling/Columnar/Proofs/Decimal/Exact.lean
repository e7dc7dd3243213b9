import Columnar.Decimal.Basic
import Columnar.Proofs.Decimal.Wide
/-!
# Products and quotients of decimals are exact

The product of two decimals, and their quotient, is found from the magnitudes of the unit counts in
double width and given its sign at the end. What comes out is the exact result over the integers,
cut off towards zero at the last place, whenever this is in range; both ends of the range, which
are not symmetric, are decided exactly.
-/

namespace Columnar

/-! ### Numbers as a sign and a magnitude -/

/-- A magnitude with a sign; that of zero does not matter. -/
def signed (negative : Bool) (magnitude : ℕ) : ℤ :=
  if negative then -(magnitude : ℤ) else magnitude

lemma eq_signed (a : ℤ) : a = signed (decide (a < 0)) a.natAbs := by
  by_cases ha : a < 0
  · simp only [signed, ha, decide_true, if_true]
    omega
  · simp only [signed, ha, decide_false, Bool.false_eq_true, if_false]
    omega

lemma signed_mul_signed (p q : Bool) (m n : ℕ) :
    signed p m * signed q n = signed (p != q) (m * n) := by
  cases p <;> cases q <;> simp [signed]

/-- Truncated division works on magnitudes. -/
lemma signed_tdiv_signed (p q : Bool) (m n : ℕ) :
    (signed p m).tdiv (signed q n) = signed (p != q) (m / n) := by
  cases p <;> cases q <;> simp [signed, Int.neg_tdiv, Int.tdiv_neg]

@[simp] lemma natAbs_signed (negative : Bool) (n : ℕ) : (signed negative n).natAbs = n := by
  cases negative <;> simp [signed]

namespace Decimal

/-! ### The range -/

/-- The integers that are unit counts. -/
def InRange (n : ℤ) : Prop := -2 ^ 127 ≤ n ∧ n < 2 ^ 127

lemma inRange_raw (d : Decimal) : InRange d.raw := ⟨d.min_le, d.lt_max⟩

lemma ofRaw?_eq_some_iff (n : ℤ) (d : Decimal) : ofRaw? n = some d ↔ d.raw = n := by
  obtain ⟨raw, hmin, hmax⟩ := d
  rw [ofRaw?]
  split_ifs with h
  · simp [eq_comm]
  · simp only [false_iff]
    rintro rfl
    exact h ⟨hmin, hmax⟩

lemma ofMagnitude?_eq_some_iff (negative : Bool) (q : Word) (d : Decimal) :
    ofMagnitude? negative q = some d ↔ d.raw = signed negative q.toNat :=
  ofRaw?_eq_some_iff _ d

lemma natAbs_raw_lt (d : Decimal) : d.raw.natAbs < 2 ^ 128 := by
  have := d.inRange_raw
  unfold InRange at this
  omega

lemma toNat_magnitude (a : Decimal) : a.magnitude.toNat = a.raw.natAbs := by
  rw [magnitude, BitVec.toNat_ofNat, Nat.mod_eq_of_lt a.natAbs_raw_lt]

lemma toNat_factor : (BitVec.ofNat 128 factor).toNat = 10 ^ 10 := by
  decide

/-- A result that is determined for every decimal is missing just when it is out of range. -/
lemma eq_none_iff_of_forall {x : Option Decimal} {n : ℤ} {p : Prop}
    (h : ∀ d, x = some d ↔ p ∧ d.raw = n) : x = none ↔ ¬ (p ∧ InRange n) := by
  constructor
  · rintro rfl ⟨hp, hmin, hmax⟩
    have := (h ⟨n, hmin, hmax⟩).2 ⟨hp, rfl⟩
    cases this
  · intro hn
    rw [Option.eq_none_iff_forall_ne_some]
    intro d hd
    obtain ⟨hp, rfl⟩ := (h d).1 hd
    exact hn ⟨hp, d.inRange_raw⟩

/-! ### From magnitudes to decimals -/

/-- A product of magnitudes, divided and given a sign, is the decimal with the exact quotient. -/
lemma wideDiv_bind_eq_some_iff (x y divisor : Word) (negative : Bool) (d : Decimal) :
    ((Word.wideDiv (Word.wideMul x y).1 (Word.wideMul x y).2 divisor).bind
        (ofMagnitude? negative)) = some d ↔
      0 < divisor.toNat ∧ d.raw = signed negative (x.toNat * y.toNat / divisor.toNat) := by
  rw [Option.bind_eq_some_iff]
  simp only [Word.wideDiv_eq_some_iff, Word.wideMul_exact, ofMagnitude?_eq_some_iff]
  constructor
  · rintro ⟨q, ⟨hpos, hq⟩, hd⟩
    exact ⟨hpos, hq ▸ hd⟩
  · -- a magnitude in range fits a word
    rintro ⟨hpos, hd⟩
    have hlt : x.toNat * y.toNat / divisor.toNat < 2 ^ 128 := by
      rw [← natAbs_signed negative (x.toNat * y.toNat / divisor.toNat), ← hd]
      exact d.natAbs_raw_lt
    refine ⟨BitVec.ofNat 128 (x.toNat * y.toNat / divisor.toNat), ⟨hpos, ?_⟩, ?_⟩
    · rw [BitVec.toNat_ofNat, Nat.mod_eq_of_lt hlt]
    · rw [BitVec.toNat_ofNat, Nat.mod_eq_of_lt hlt, hd]

lemma ten_pow_eq_signed : (10 : ℤ) ^ 10 = signed false (10 ^ 10) := by
  norm_num [signed]

lemma mul?_eq_some_iff (a b d : Decimal) :
    a.mul? b = some d ↔ d.raw = (a.raw * b.raw).tdiv (10 ^ 10) := by
  have h := wideDiv_bind_eq_some_iff a.magnitude b.magnitude (BitVec.ofNat 128 factor)
    (decide (a.raw < 0) != decide (b.raw < 0)) d
  rw [toNat_magnitude, toNat_magnitude, toNat_factor] at h
  rw [ten_pow_eq_signed, eq_signed a.raw, eq_signed b.raw, signed_mul_signed, signed_tdiv_signed,
    Bool.bne_false]
  refine Iff.trans ?_ (h.trans ⟨And.right, And.intro (by decide)⟩)
  rfl

lemma div?_eq_some_iff (a b d : Decimal) :
    a.div? b = some d ↔ b.raw ≠ 0 ∧ d.raw = (a.raw * 10 ^ 10).tdiv b.raw := by
  rw [div?]
  split_ifs with hzero
  · simp [hzero]
  · have h := wideDiv_bind_eq_some_iff a.magnitude (BitVec.ofNat 128 factor) b.magnitude
      (decide (a.raw < 0) != decide (b.raw < 0)) d
    rw [toNat_magnitude, toNat_magnitude, toNat_factor] at h
    have hquotient : (a.raw * 10 ^ 10).tdiv b.raw
        = signed (decide (a.raw < 0) != decide (b.raw < 0))
          (a.raw.natAbs * 10 ^ 10 / b.raw.natAbs) := by
      conv_lhs => rw [ten_pow_eq_signed, eq_signed a.raw, eq_signed b.raw]
      rw [signed_mul_signed, signed_tdiv_signed, Bool.bne_false]
    rw [hquotient]
    refine h.trans (and_congr_left' ?_)
    rw [Int.natAbs_pos]

/-- The product and the quotient of two decimals are the exact ones, cut off towards zero at the
last place, when these are in range, and missing when they are not. -/
theorem mul?_and_div?_exact (a b : Decimal) :
    (∀ d, a.mul? b = some d ↔ d.raw = (a.raw * b.raw).tdiv (10 ^ 10)) ∧
    (a.mul? b = none ↔ ¬ InRange ((a.raw * b.raw).tdiv (10 ^ 10))) ∧
    (∀ d, a.div? b = some d ↔ b.raw ≠ 0 ∧ d.raw = (a.raw * 10 ^ 10).tdiv b.raw) ∧
    (a.div? b = none ↔ ¬ (b.raw ≠ 0 ∧ InRange ((a.raw * 10 ^ 10).tdiv b.raw))) := by
  refine ⟨mul?_eq_some_iff a b, ?_, div?_eq_some_iff a b,
    eq_none_iff_of_forall (div?_eq_some_iff a b)⟩
  have hmul : ∀ d, a.mul? b = some d ↔ True ∧ d.raw = (a.raw * b.raw).tdiv (10 ^ 10) := by
    intro d
    rw [true_and, mul?_eq_some_iff]
  rw [eq_none_iff_of_forall hmul, true_and]

/-- The smallest decimal divided by minus one is out of range, and times one it is itself. -/
example : Decimal.min.div? ⟨-10 ^ 10, by decide, by decide⟩ = none ∧
    Decimal.min.mul? .one = some .min := by
  decide +kernel

end Decimal

end Columnar
