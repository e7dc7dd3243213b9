/-!
# Little-endian words

Numbers as strings of bytes, the least significant byte first.
-/

namespace Columnar.LittleEndian

/-- The lowest `width` bytes of a number. -/
def encode : (width : Nat) → Nat → List UInt8
  | 0, _ => []
  | width + 1, n => UInt8.ofNat n :: encode width (n / 256)

/-- The number that a string of bytes denotes. -/
def decode : List UInt8 → Nat
  | [] => 0
  | b :: bytes => b.toNat + 256 * decode bytes

@[simp] theorem length_encode (width n : Nat) : (encode width n).length = width := by
  induction width generalizing n with
  | zero => rfl
  | succ width ih => simp [encode, ih]

/-- Reading back what was written gives the number modulo the range of the width. -/
theorem decode_encode (width n : Nat) : decode (encode width n) = n % 1 <<< (8 * width) := by
  induction width generalizing n with
  | zero => simp [encode, decode, Nat.mod_one]
  | succ width ih =>
    have h : (UInt8.ofNat n).toNat = n % 256 := UInt8.toNat_ofNat'
    have hrange : 1 <<< (8 * (width + 1)) = 256 * 1 <<< (8 * width) := by
      rw [Nat.mul_add, Nat.shiftLeft_add, Nat.shiftLeft_eq _ (8 * 1), Nat.mul_comm]
    rw [encode, decode, ih, h, hrange, Nat.mod_mul]

end Columnar.LittleEndian
