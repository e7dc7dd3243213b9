import Columnar.Decimal.Wide
import Columnar.Ieee.Format
/-!
# Fixed-point decimals

A decimal is a signed 128-bit number of units of `10 ^ -10`. Arithmetic never wraps: every
operation gives `none` when its exact result, cut off towards zero at the tenth place, is outside
the range. Products and quotients go through a double-width intermediate, so that only the final
result has to fit.
-/

namespace Columnar

/-- A fixed-point number with ten decimal places. -/
structure Decimal where
  /-- The number of units in the last place. -/
  raw : Int
  /-- The unit count is at least the smallest signed 128-bit number. -/
  min_le : -(1 <<< 127 : Nat) ≤ raw
  /-- The unit count is at most the largest signed 128-bit number. -/
  lt_max : raw < (1 <<< 127 : Nat)
deriving DecidableEq

namespace Decimal

/-- The number of decimal places. -/
def scale : Nat := 10

/-- The number of significant decimal digits announced for decimals. -/
def precision : Nat := 38

/-- The number of units in one. -/
def factor : Nat := Nat.pow 10 scale

/-- The decimal of a unit count, if it is in range. -/
def ofRaw? (raw : Int) : Option Decimal :=
  if h : -(1 <<< 127 : Nat) ≤ raw ∧ raw < (1 <<< 127 : Nat) then some ⟨raw, h.1, h.2⟩ else none

/-- The decimal whose unit count agrees with a number modulo `2 ^ 128`. -/
def ofRawWrapping (raw : Int) : Decimal where
  raw := raw.bmod (1 <<< 128)
  min_le := by
    have := Int.le_bmod (x := raw) (m := 1 <<< 128) (by decide)
    omega
  lt_max := by
    have := Int.bmod_lt (x := raw) (m := 1 <<< 128) (by decide)
    omega

/-- Zero, which is also what is stored beneath nulls. -/
def zero : Decimal := ⟨0, by decide, by decide⟩

/-- One: as many units as there are in it. -/
def one : Decimal := ⟨factor, by decide, by decide⟩

/-- The smallest decimal. -/
def min : Decimal := ⟨-(1 <<< 127 : Nat), by decide, by decide⟩

/-- The largest decimal. -/
def max : Decimal := ⟨(1 <<< 127 - 1 : Nat), by decide, by decide⟩

/-- The decimals are inhabited by zero. -/
instance : Inhabited Decimal := ⟨zero⟩

/-- A 64-bit integer as a decimal; always in range. -/
def ofInt64 (n : Int64) : Decimal := ofRawWrapping (n.toInt * factor)

/-- The absolute value of the unit count as a word. -/
def magnitude (a : Decimal) : Word := BitVec.ofNat 128 a.raw.natAbs

/-- A magnitude with a sign, if it is in range; the negative range reaches one further. -/
def ofMagnitude? (negative : Bool) (magnitude : Word) : Option Decimal :=
  ofRaw? (if negative then -(magnitude.toNat : Int) else magnitude.toNat)

/-- The sum, if it is in range. -/
def add? (a b : Decimal) : Option Decimal := ofRaw? (a.raw + b.raw)

/-- The difference, if it is in range. -/
def sub? (a b : Decimal) : Option Decimal := ofRaw? (a.raw - b.raw)

/-- The product cut off towards zero at the last place, if it is in range. -/
def mul? (a b : Decimal) : Option Decimal := do
  let (hi, lo) := Word.wideMul a.magnitude b.magnitude
  let quotient ← Word.wideDiv hi lo (BitVec.ofNat 128 factor)
  ofMagnitude? (decide (a.raw < 0) != decide (b.raw < 0)) quotient

/-- The quotient cut off towards zero at the last place, if the divisor is not zero and the
quotient is in range. -/
def div? (a b : Decimal) : Option Decimal :=
  if b.raw = 0 then none
  else do
    let (hi, lo) := Word.wideMul a.magnitude (BitVec.ofNat 128 factor)
    let quotient ← Word.wideDiv hi lo b.magnitude
    ofMagnitude? (decide (a.raw < 0) != decide (b.raw < 0)) quotient

/-- The remainder of the unit counts, with the sign of the dividend. It is taken together with
their quotient: there is none by zero, and none where the quotient of the unit counts is out of
range. -/
def mod? (a b : Decimal) : Option Decimal :=
  if b.raw = 0 then none
  else do
    let _ ← ofRaw? (a.raw.tdiv b.raw)
    ofRaw? (a.raw.tmod b.raw)

/-- The absolute value; that of the smallest decimal wraps around to itself. -/
def abs (a : Decimal) : Decimal := ofRawWrapping a.raw.natAbs

/-- The closest decimal to a floating-point number, a half going away from zero. There is none of
a number that is not finite or out of range, and none at the very ends of the range. -/
def ofFloat? (x : Float) : Option Decimal :=
  match Ieee.binary64.decode (x * 1e10).round.toBits.toNat with
  | .finite negative m q =>
    let units : Nat := m <<< q.toNat >>> (-q).toNat
    if 1 <<< 127 ≤ units then none else ofRaw? (if negative then -units else units)
  | _ => none

/-- The floating-point number of a decimal: that of its whole part plus that of its fraction. -/
def toFloat (a : Decimal) : Float :=
  Float.ofInt (a.raw.tdiv factor) + Float.ofInt (a.raw.tmod factor) / Float.ofNat factor

end Decimal

end Columnar
