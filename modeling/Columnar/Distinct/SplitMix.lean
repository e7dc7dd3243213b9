/-!
# Mixing bits

A bijection on 64-bit words whose output looks random. It spreads the bits by which values are told
apart over the whole word before they are counted.
-/

namespace Columnar.Distinct

/-- Exclusive disjunction of a word with itself shifted down. -/
def xorShift (z : UInt64) (places : UInt64) : UInt64 := z ^^^ (z >>> places)

/-- The mixed form of a word. -/
def mix (bits : UInt64) : UInt64 :=
  let z := bits + 0x9E3779B97F4A7C15
  let z := xorShift z 30 * 0xBF58476D1CE4E5B9
  let z := xorShift z 27 * 0x94D049BB133111EB
  xorShift z 31

end Columnar.Distinct
