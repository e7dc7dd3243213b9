/-!
# Double-width arithmetic on 128-bit words

Products of 128-bit words need 256 bits, and scaled quotients start from them. This file holds the
full product of two words as a high and a low word, formed from 64-bit halves, and the division of
such a double word by a word, one bit at a time with a restored remainder. The words wrap; that no
intermediate result of the product does so, and that the carry makes up for the bit the remainder
loses, is what makes both exact.
-/

namespace Columnar

/-- An unsigned 128-bit word. -/
abbrev Word := BitVec 128

namespace Word

/-- The low 64 bits of a word. -/
def lowHalf (a : Word) : Word := a &&& 0xFFFFFFFFFFFFFFFF#128

/-- The high 64 bits of a word, moved down. -/
def highHalf (a : Word) : Word := a >>> 64

/-- The full product of two words as its high and its low word. The three terms of the middle sum
have 64 bits each, so that it fits a word. -/
def wideMul (a b : Word) : Word × Word :=
  let low := a.lowHalf * b.lowHalf
  let crossA := a.highHalf * b.lowHalf
  let crossB := a.lowHalf * b.highHalf
  let high := a.highHalf * b.highHalf
  let middle := low.highHalf + crossA.lowHalf + crossB.lowHalf
  (high + crossA.highHalf + crossB.highHalf + middle.highHalf, low.lowHalf ||| middle <<< 64)

/-- The state of a long division: the remainder so far and the quotient so far. -/
structure Division where
  /-- What is left of the digits already consumed; smaller than the divisor. -/
  remainder : Word
  quotient : Word

/-- Consume one more bit of the dividend. The bit shifted out of the remainder is kept aside; when
it is set, the true remainder exceeds every divisor and the wrapping subtraction is exact. -/
def Division.step (divisor : Word) (s : Division) (bit : Bool) : Division :=
  let carry := s.remainder.msb
  let remainder := s.remainder <<< 1 ||| (if bit then 1 else 0)
  let quotient := s.quotient <<< 1
  if carry || divisor ≤ remainder then ⟨remainder - divisor, quotient ||| 1⟩
  else ⟨remainder, quotient⟩

/-- The bits of a word, the most significant first. -/
def bitsDown (a : Word) : List Bool := (List.range 128).reverse.map a.getLsbD

/-- The quotient of the double word `hi, lo` by a divisor, when it fits a word. -/
def wideDiv (hi lo divisor : Word) : Option Word :=
  if divisor = 0 ∨ divisor ≤ hi then none
  else if hi = 0 then some (lo / divisor)
  else some (lo.bitsDown.foldl (Division.step divisor) ⟨hi, 0⟩).quotient

end Word

end Columnar
