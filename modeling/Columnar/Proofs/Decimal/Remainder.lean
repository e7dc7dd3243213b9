import Columnar.Proofs.Decimal.Exact
/-!
# Remainders of decimals

A remainder is smaller than the divisor, so that it always fits. It is found together with the
quotient of the unit counts though, and this is out of range for one pair of operands: the smallest
decimal by a divisor of minus one unit. There the remainder, zero, is missing; everywhere else but
at a zero divisor it is there, and exact.
-/

namespace Columnar.Decimal

/-- The smallest positive decimal. -/
def unit : Decimal := ⟨1, by decide, by decide⟩

/-- The greatest negative decimal. -/
def minusUnit : Decimal := ⟨-1, by decide, by decide⟩

lemma eq_min_iff (a : Decimal) : a = .min ↔ a.raw = -2 ^ 127 :=
  Decimal.mk.injEq .. ▸ Iff.rfl

/-- The quotient of two unit counts is out of range for one pair only: the smallest unit count has
no opposite. -/
lemma inRange_tdiv_iff (a b : Decimal) (hb : b.raw ≠ 0) :
    InRange (a.raw.tdiv b.raw) ↔ ¬ (a = .min ∧ b.raw = -1) := by
  have ha := a.inRange_raw
  have hmag : (a.raw.tdiv b.raw).natAbs = a.raw.natAbs / b.raw.natAbs := Int.natAbs_tdiv ..
  unfold InRange at ha ⊢
  rw [eq_min_iff]
  rcases (by omega : b.raw = 1 ∨ b.raw = -1 ∨ 2 ≤ b.raw.natAbs) with h | h | h
  · rw [h, Int.tdiv_one]
    omega
  · rw [h, Int.tdiv_neg, Int.tdiv_one]
    omega
  · -- the quotient is at most half as large as the dividend
    have hhalf : a.raw.natAbs / b.raw.natAbs ≤ a.raw.natAbs / 2 :=
      Nat.div_le_div_left h (by decide)
    rw [← hmag] at hhalf
    omega

/-- A remainder is smaller in magnitude than the divisor. -/
lemma inRange_tmod (a b : Decimal) (hb : b.raw ≠ 0) : InRange (a.raw.tmod b.raw) := by
  have hrange := b.inRange_raw
  have hmag := Int.natAbs_tmod a.raw b.raw
  have hlt := Nat.mod_lt a.raw.natAbs (Int.natAbs_pos.2 hb)
  unfold InRange at hrange ⊢
  omega

lemma mod?_eq_some_iff (a b d : Decimal) : a.mod? b = some d ↔
    (b.raw ≠ 0 ∧ ¬ (a = .min ∧ b.raw = -1)) ∧ d.raw = a.raw.tmod b.raw := by
  rw [mod?]
  split_ifs with hzero
  · simp [hzero]
  · rw [Option.bind_eq_bind, Option.bind_eq_some_iff, ← inRange_tdiv_iff a b hzero]
    simp only [ofRaw?_eq_some_iff]
    constructor
    · rintro ⟨q, hq, hd⟩
      exact ⟨⟨hzero, hq ▸ q.inRange_raw⟩, hd⟩
    · rintro ⟨⟨-, hmin, hmax⟩, hd⟩
      exact ⟨⟨_, hmin, hmax⟩, rfl, hd⟩

/-- A remainder is missing for a zero divisor and for the one pair without a quotient. -/
theorem mod?_eq_none_iff (a b : Decimal) :
    a.mod? b = none ↔ b.raw = 0 ∨ a = .min ∧ b.raw = -1 := by
  rw [eq_none_iff_of_forall (mod?_eq_some_iff a b)]
  constructor
  · intro h
    by_contra hne
    rw [not_or] at hne
    exact h ⟨hne, inRange_tmod a b hne.1⟩
  · rintro (hzero | hmin) ⟨⟨hb, hpair⟩, -⟩
    · exact hb hzero
    · exact hpair hmin

/-- All other remainders are there, and what the truncated quotient leaves. -/
theorem exists_mod?_eq_some {a b : Decimal} (hb : b.raw ≠ 0)
    (hpair : ¬ (a = .min ∧ b.raw = -1)) :
    ∃ d, a.mod? b = some d ∧ d.raw = a.raw - b.raw * a.raw.tdiv b.raw := by
  obtain ⟨hmin, hmax⟩ := inRange_tmod a b hb
  exact ⟨⟨_, hmin, hmax⟩, (mod?_eq_some_iff a b _).2 ⟨⟨hb, hpair⟩, rfl⟩, Int.tmod_def ..⟩

/-- The smallest decimal is a multiple of both units, but shows it by one of them only. -/
example : Decimal.min.mod? unit = some .zero ∧ Decimal.min.mod? minusUnit = none := by
  decide +kernel

end Columnar.Decimal
