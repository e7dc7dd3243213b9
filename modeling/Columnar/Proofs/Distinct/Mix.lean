import Mathlib
import Columnar.Distinct.SplitMix
/-!
# Mixing loses nothing

The mixer is put together from steps that can be undone: to add a constant, to multiply by an odd
one, and to combine a word with itself shifted down, which leaves the highest bits as they are and
so lets the others be recovered from them. Different words have different mixed forms.
-/

namespace Columnar.Distinct

/-- A word that is its own shift by a positive number of places is zero. -/
lemma eq_zero_of_eq_shiftRight {z places : UInt64} (hpos : 0 < places.toNat % 64)
    (h : z = z >>> places) : z = 0 := by
  have hnat : z.toNat = z.toNat / 2 ^ (places.toNat % 64) := by
    conv_lhs => rw [h, UInt64.toNat_shiftRight, Nat.shiftRight_eq_div_pow]
  have htwo : 2 ≤ 2 ^ (places.toNat % 64) := Nat.le_self_pow (by omega) 2
  rw [← UInt64.toNat_inj, UInt64.toNat_zero]
  by_contra hne
  exact absurd (Nat.div_lt_self (Nat.pos_of_ne_zero hne) htwo) (by omega)

lemma xorShift_injective (places : UInt64) (hpos : 0 < places.toNat % 64) :
    Function.Injective (xorShift · places) := by
  intro x y h
  -- the difference of the words is its own shift
  have hdiff : x ^^^ y = (x ^^^ y) >>> places := by
    rw [UInt64.shiftRight_xor]
    have h : x ^^^ x >>> places = y ^^^ y >>> places := h
    have hx : x = y ^^^ y >>> places ^^^ x >>> places := by
      rw [← h, UInt64.xor_assoc, UInt64.xor_self, UInt64.xor_zero]
    calc x ^^^ y = y ^^^ y >>> places ^^^ x >>> places ^^^ y := by rw [← hx]
      _ = y ^^^ y ^^^ (x >>> places ^^^ y >>> places) := by ac_rfl
      _ = x >>> places ^^^ y >>> places := by rw [UInt64.xor_self, UInt64.zero_xor]
  exact UInt64.xor_eq_zero_iff.1 (eq_zero_of_eq_shiftRight hpos hdiff)

/-- Multiplication by a word that has an inverse can be undone. -/
lemma mul_right_injective_of_inverse {a b : UInt64} (h : a * b = 1) :
    Function.Injective (· * a : UInt64 → UInt64) := by
  refine Function.LeftInverse.injective (g := (· * b)) fun z => ?_
  show z * a * b = z
  rw [UInt64.mul_assoc, h, UInt64.mul_one]

/-- **The mixer is injective.** -/
theorem mix_injective : Function.Injective mix := by
  have hadd : Function.Injective (· + 0x9E3779B97F4A7C15 : UInt64 → UInt64) :=
    fun _ _ h => UInt64.add_left_inj _ |>.1 h
  have hmul : Function.Injective (· * 0xBF58476D1CE4E5B9 : UInt64 → UInt64) :=
    mul_right_injective_of_inverse (b := 0x96de1b173f119089) (by decide)
  have hmul' : Function.Injective (· * 0x94D049BB133111EB : UInt64 → UInt64) :=
    mul_right_injective_of_inverse (b := 0x319642b2d24d8ec3) (by decide)
  exact (xorShift_injective 31 (by decide)).comp <|
    hmul'.comp <| (xorShift_injective 27 (by decide)).comp <|
    hmul.comp <| (xorShift_injective 30 (by decide)).comp hadd

end Columnar.Distinct
