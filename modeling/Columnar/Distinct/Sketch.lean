/-!
# Sketches of large sets

A sketch estimates the size of a set of 64-bit hashes in constant space. The top bits of a hash
name a register; the register keeps the largest rank it has seen, the rank of a hash being the
position of the first set bit after those top bits. Many distinct hashes make high ranks likely,
and the harmonic mean over the registers turns the ranks into an estimate.
-/

namespace Columnar.Distinct

/-- The registers of a sketch, `2 ^ precision` of them. -/
structure Sketch where
  /-- The number of hash bits that name a register. -/
  precision : Nat
  /-- The largest rank seen by each register; zero where none was. -/
  registers : Array UInt8
deriving DecidableEq, Repr

namespace Sketch

/-- The sketch of the empty set. -/
def empty (precision : Nat) : Sketch := ⟨precision, Array.replicate (1 <<< precision) 0⟩

/-- The number of clear bits above the highest set bit. -/
def leadingZeros (n : UInt64) : Nat := if n = 0 then 64 else 63 - n.toNat.log2

/-- The register that a hash falls in. -/
def registerOf (precision : Nat) (hash : UInt64) : Nat :=
  (hash >>> UInt64.ofNat (64 - precision)).toNat

/-- The position of the first set bit after the bits that name the register. -/
def rankOf (precision : Nat) (hash : UInt64) : UInt8 :=
  UInt8.ofNat (leadingZeros (hash <<< UInt64.ofNat precision) + 1)

/-- Take in a hash: its register keeps the larger rank. -/
def insert (s : Sketch) (hash : UInt64) : Sketch :=
  match s with
  | ⟨precision, registers⟩ =>
    ⟨precision, registers.modify (registerOf precision hash) (max · (rankOf precision hash))⟩

/-- The correction for the bias of the harmonic mean over `m` registers. -/
def biasCorrection (m : Nat) : Float :=
  match m with
  | 16 => 0.673
  | 32 => 0.697
  | 64 => 0.709
  | m => 0.7213 / (1.0 + 1.079 / m.toFloat)

/-- The estimated number of hashes. While registers are empty and the estimate is small, they are
counted instead. -/
def estimate (s : Sketch) : Nat :=
  let m := s.registers.size.toFloat
  let harmonic := s.registers.foldl (fun sum r => sum + (-r.toFloat).exp2) 0.0
  let empty := s.registers.count 0
  let raw := biasCorrection s.registers.size * m * m / harmonic
  let estimate :=
    if raw ≤ 2.5 * m && 0 < empty then m * (m / empty.toFloat).log else raw
  estimate.round.toUInt64.toNat

end Sketch

end Columnar.Distinct
