import Columnar.Proofs.Decimal.Wide
/-!
# Double-width arithmetic with every sum and product checked

Words wrap, and so a total definition does not show whether a sum or a product of it ever does. Here
the product is formed a second time from additions and multiplications that have no result at all
when they leave the range of words. It comes out the same: no sum and no product of it wraps, for
any operands. The division has no such second form, as its subtraction wraps on purpose.
-/

namespace Columnar.Word

/-- The sum of two words, unless it is out of range. -/
def add? (a b : Word) : Option Word := if a.uaddOverflow b then none else some (a + b)

/-- The product of two words, unless it is out of range. -/
def mul? (a b : Word) : Option Word := if a.umulOverflow b then none else some (a * b)

lemma add?_eq_some {a b : Word} (h : a.toNat + b.toNat < 2 ^ 128) : add? a b = some (a + b) :=
  if_neg (by simpa [BitVec.uaddOverflow] using h)

lemma mul?_eq_some {a b : Word} (h : a.toNat * b.toNat < 2 ^ 128) : mul? a b = some (a * b) :=
  if_neg (by simpa [BitVec.umulOverflow] using h)

/-- The product of two half words is in range. -/
lemma mul?_eq_some_of_lt {x y : Word} (hx : x.toNat < 2 ^ 64) (hy : y.toNat < 2 ^ 64) :
    mul? x y = some (x * y) := by
  refine mul?_eq_some ?_
  calc x.toNat * y.toNat < 2 ^ 64 * 2 ^ 64 := Nat.mul_lt_mul'' hx hy
    _ = 2 ^ 128 := rfl

/-- A sum of three terms, added from the left. -/
def addThree? (a b c : Word) : Option Word := (add? a b).bind (add? · c)

/-- Nothing wraps in a sum of three terms that is in range. -/
lemma addThree?_eq_some {a b c : Word} (h : a.toNat + b.toNat + c.toNat < 2 ^ 128) :
    addThree? a b c = some (a + b + c) ∧ (a + b + c).toNat = a.toNat + b.toNat + c.toNat := by
  have hab : (a + b).toNat = a.toNat + b.toNat := by
    rw [BitVec.toNat_add]
    omega
  constructor
  · rw [addThree?, add?_eq_some (by omega), Option.bind_some, add?_eq_some (by omega)]
  · rw [BitVec.toNat_add, hab]
    omega

/-- The product of two words as its high and its low word, with every sum and every product
checked. The bits that the middle sum loses when it is moved up are in the high word. -/
def wideMul? (a b : Word) : Option (Word × Word) := do
  let low ← mul? a.lowHalf b.lowHalf
  let crossA ← mul? a.highHalf b.lowHalf
  let crossB ← mul? a.lowHalf b.highHalf
  let high ← mul? a.highHalf b.highHalf
  let middle ← addThree? low.highHalf crossA.lowHalf crossB.lowHalf
  let crossed ← addThree? high crossA.highHalf crossB.highHalf
  return (← add? crossed middle.highHalf, low.lowHalf ||| middle <<< 64)

/-- No sum and no product wraps. -/
theorem wideMul?_eq_some (a b : Word) : wideMul? a b = some (wideMul a b) := by
  let low := a.lowHalf * b.lowHalf
  let crossA := a.highHalf * b.lowHalf
  let crossB := a.lowHalf * b.highHalf
  let high := a.highHalf * b.highHalf
  let middle := low.highHalf + crossA.lowHalf + crossB.lowHalf
  have h1 := toNat_highHalf_lt low
  have h2 := toNat_lowHalf_lt crossA
  have h3 := toNat_lowHalf_lt crossB
  obtain ⟨hmiddle, -⟩ := addThree?_eq_some
    (show low.highHalf.toNat + crossA.lowHalf.toNat + crossB.lowHalf.toNat < 2 ^ 128 by omega)
  have hhigh : high.toNat + crossA.highHalf.toNat + crossB.highHalf.toNat
      + middle.highHalf.toNat < 2 ^ 128 := by
    simp only [toNat_highHalf]
    exact sum_high_lt a b (toNat_middle low crossA crossB)
  obtain ⟨hcrossed, hvalue⟩ := addThree?_eq_some
    (show high.toNat + crossA.highHalf.toNat + crossB.highHalf.toNat < 2 ^ 128 by omega)
  have hsum : add? (high + crossA.highHalf + crossB.highHalf) middle.highHalf = some _ :=
    add?_eq_some (by rwa [hvalue])
  simp only [wideMul?, mul?_eq_some_of_lt, toNat_lowHalf_lt, toNat_highHalf_lt,
    Option.bind_eq_bind, Option.bind_some]
  rw [hmiddle, Option.bind_some, hcrossed, Option.bind_some, hsum]
  rfl

/-- **Double-width arithmetic is exact.** The product of any two words is their product as integers,
given as a high and a low word, and no sum or product on the way leaves the range of words. The
division of a double word by a word, also by one with the highest bit set, gives the quotient
rounded down whenever there is one and it fits a word, and nothing otherwise. -/
theorem wide_arithmetic_exact :
    (∀ a b : Word, ∃ hi lo, wideMul? a b = some (hi, lo) ∧ wideMul a b = (hi, lo) ∧
      hi.toNat * 2 ^ 128 + lo.toNat = a.toNat * b.toNat) ∧
    ∀ hi lo divisor : Word,
      let quotient := (hi.toNat * 2 ^ 128 + lo.toNat) / divisor.toNat
      (0 < divisor.toNat ∧ quotient < 2 ^ 128 →
        ∃ q, wideDiv hi lo divisor = some q ∧ q.toNat = quotient) ∧
      (¬ (0 < divisor.toNat ∧ quotient < 2 ^ 128) → wideDiv hi lo divisor = none) := by
  refine ⟨fun a b => ⟨_, _, wideMul?_eq_some a b, rfl, wideMul_exact a b⟩, fun hi lo divisor => ?_⟩
  intro quotient
  constructor
  · rintro ⟨hpos, hlt⟩
    have hq : (BitVec.ofNat 128 quotient).toNat = quotient := by
      rw [BitVec.toNat_ofNat, Nat.mod_eq_of_lt hlt]
    exact ⟨_, (wideDiv_eq_some_iff hi lo divisor _).2 ⟨hpos, hq⟩, hq⟩
  · intro hnone
    rw [Option.eq_none_iff_forall_ne_some]
    intro q hq
    obtain ⟨hpos, hvalue⟩ := (wideDiv_eq_some_iff hi lo divisor q).1 hq
    have hlt := q.isLt
    rw [hvalue] at hlt
    exact hnone ⟨hpos, hlt⟩

/-- By the largest divisor, with a bit carried out of the remainder at every step but the last. -/
example : wideDiv (-2) 0 (-1) = some (-2) := by decide +kernel

end Columnar.Word
