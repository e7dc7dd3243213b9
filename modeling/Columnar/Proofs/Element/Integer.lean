import Columnar.Proofs.Element.Digest
import Mathlib.Data.Int.ModEq
import Mathlib.Tactic.Ring
/-!
# Integers of a fixed width

Nine kinds are kinds of integers: their values are words of 8 to 64 bits, read with a sign or
without, and their operations are those of words. The operations of words are in turn those of
integers, with the exact result reduced modulo a power of two into the range of the kind. Only
division needs the sign to be told apart; the other operations respect congruence, whatever the
reading.
-/

namespace Columnar

/-- The exact integer operation. Division truncates, and the remainder belongs to it. -/
def ArithmeticOp.exact : ArithmeticOp → ℤ → ℤ → ℤ
  | .add => (· + ·)
  | .subtract => (· - ·)
  | .multiply => (· * ·)
  | .divide => Int.tdiv
  | .modulo => Int.tmod

/-! ### Words -/

namespace Word

variable {w i m : ℕ} {signed : Bool} {n n' : ℤ} {x : BitVec w}

/-- The integer that a word stands for, with a sign or without. -/
def read (signed : Bool) (x : BitVec w) : ℤ := if signed then x.toInt else x.toNat

/-- An integer reduced modulo a power of two into the range of words. -/
def wrap (signed : Bool) (w : ℕ) (n : ℤ) : ℤ := if signed then n.bmod (2 ^ w) else n % (2 ^ w : ℕ)

/-- The arithmetic of words; signs matter to division only. -/
def arithmetic (signed : Bool) : ArithmeticOp → BitVec w → BitVec w → BitVec w
  | .add => (· + ·)
  | .subtract => (· - ·)
  | .multiply => (· * ·)
  | .divide => if signed then BitVec.sdiv else (· / ·)
  | .modulo => if signed then BitVec.srem else (· % ·)

/-- The shifts of words; to the right, copies of the sign move in if there is one. -/
def shift (signed : Bool) : ShiftOp → BitVec w → ℕ → BitVec w
  | .left, x, places => x <<< places
  | .right, x, places => if signed then x.sshiftRight places else x >>> places

lemma wrap_modEq (signed : Bool) (w : ℕ) (n : ℤ) : wrap signed w n ≡ n [ZMOD (2 ^ w : ℕ)] := by
  cases signed with
  | true => exact Int.bmod_emod
  | false => exact Int.mod_modEq n _

/-- Integers are reduced to the same if they are congruent. -/
lemma wrap_eq_wrap_iff : wrap signed w n = wrap signed w n' ↔ n ≡ n' [ZMOD (2 ^ w : ℕ)] := by
  constructor
  · intro h
    exact (wrap_modEq signed w n).symm.trans (h ▸ wrap_modEq signed w n')
  · intro h
    cases signed with
    | true =>
      show n.bmod (2 ^ w) = n'.bmod (2 ^ w)
      rw [← Int.emod_bmod, h, Int.emod_bmod]
    | false => exact h

/-- Either reading reduces the number of the word without a sign. -/
lemma read_eq_wrap_toNat (signed : Bool) (x : BitVec w) :
    read signed x = wrap signed w x.toNat := by
  cases signed with
  | true => exact x.toInt_eq_toNat_bmod
  | false => exact (Int.emod_eq_of_lt (Int.natCast_nonneg _) (Int.ofNat_lt.2 x.isLt)).symm

lemma toNat_modEq (signed : Bool) (x : BitVec w) :
    (x.toNat : ℤ) ≡ read signed x [ZMOD (2 ^ w : ℕ)] := by
  rw [read_eq_wrap_toNat]
  exact (wrap_modEq signed w _).symm

/-- A word is read as what is reduced if its number is congruent to that. -/
lemma read_eq_wrap_iff :
    read signed x = wrap signed w n ↔ (x.toNat : ℤ) ≡ n [ZMOD (2 ^ w : ℕ)] := by
  rw [read_eq_wrap_toNat, wrap_eq_wrap_iff]

/-- The word of a number is read as the number, reduced. -/
lemma read_ofNat (signed : Bool) (w m : ℕ) :
    read signed (BitVec.ofNat w m) = wrap signed w (m : ℤ) := by
  rw [read_eq_wrap_iff, BitVec.toNat_ofNat, Int.natCast_mod]
  exact Int.mod_modEq _ _

/-- What is read off a word is in range. -/
lemma wrap_read (signed : Bool) (x : BitVec w) : wrap signed w (read signed x) = read signed x :=
  (read_eq_wrap_iff.2 (toNat_modEq signed x)).symm

/-- The remainder of two integers in range is in range. -/
lemma read_modulo (signed : Bool) (x y : BitVec w) :
    read signed (arithmetic signed .modulo x y) = (read signed x).tmod (read signed y) := by
  cases signed with
  | true => exact x.toInt_srem y
  | false => exact (congrArg Nat.cast (x.toNat_umod)).trans (Int.ofNat_tmod _ _)

/-- An operation of words gives the exact result, reduced. -/
theorem read_arithmetic (signed : Bool) (op : ArithmeticOp) (x y : BitVec w) :
    read signed (arithmetic signed op x y)
      = wrap signed w (op.exact (read signed x) (read signed y)) := by
  have hx := toNat_modEq signed x
  have hy := toNat_modEq signed y
  cases op with
  | add =>
    rw [read_eq_wrap_iff, arithmetic, BitVec.toNat_add, Int.natCast_mod, Nat.cast_add]
    exact (Int.mod_modEq _ _).trans (hx.add hy)
  | subtract =>
    have hle : y.toNat ≤ 2 ^ w := y.isLt.le
    rw [read_eq_wrap_iff, arithmetic, BitVec.toNat_sub, Int.natCast_mod, Nat.cast_add,
      Nat.cast_sub hle]
    refine (Int.mod_modEq _ _).trans (Int.ModEq.trans ?_ (hx.sub hy))
    exact (Int.modEq_iff_dvd.2 ⟨-1, by ring⟩)
  | multiply =>
    rw [read_eq_wrap_iff, arithmetic, BitVec.toNat_mul, Int.natCast_mod, Nat.cast_mul]
    exact (Int.mod_modEq _ _).trans (hx.mul hy)
  | divide =>
    cases signed with
    | true => exact x.toInt_sdiv y
    | false =>
      rw [read_eq_wrap_iff]
      exact congrArg (fun n : ℤ => n % _) (congrArg Nat.cast x.toNat_udiv)
  | modulo =>
    rw [← wrap_read, read_modulo]
    rfl

lemma read_shift_left (signed : Bool) (x : BitVec w) (places : ℕ) :
    read signed (shift signed .left x places)
      = wrap signed w (read signed x * 2 ^ places) := by
  rw [read_eq_wrap_iff, shift, BitVec.toNat_shiftLeft, Int.natCast_mod, Nat.shiftLeft_eq,
    Nat.cast_mul, Nat.cast_pow, Nat.cast_ofNat]
  exact (Int.mod_modEq _ _).trans ((toNat_modEq signed x).mul_right _)

/-- A shift to the right divides and rounds down, whatever the sign. -/
lemma read_shift_right (signed : Bool) (x : BitVec w) (places : ℕ) :
    read signed (shift signed .right x places) = read signed x / 2 ^ places := by
  rw [← Nat.cast_ofNat, ← Nat.cast_pow, ← Int.shiftRight_eq_div_pow]
  cases signed with
  | true => exact BitVec.toInt_sshiftRight
  | false => exact congrArg Nat.cast (x.toNat_ushiftRight places)

/-- An amount below the number of bits is kept when it is reduced as a word without a sign. -/
lemma toNat_ofNat_umod (hm : m < 2 ^ w) (hi : i < m) :
    (BitVec.ofNat w i % BitVec.ofNat w m).toNat = i := by
  rw [BitVec.toNat_umod, BitVec.toNat_ofNat, BitVec.toNat_ofNat, Nat.mod_eq_of_lt (hi.trans hm),
    Nat.mod_eq_of_lt hm, Nat.mod_eq_of_lt hi]

/-- An amount below the number of bits is kept when it is reduced as a word with a sign. -/
lemma toNat_ofNat_smod (hm : 2 * m < 2 ^ w) (hi : i < m) :
    ((BitVec.ofNat w i).smod (BitVec.ofNat w m)).toNat = i := by
  have hsmall : ∀ {j : ℕ}, 2 * j < 2 ^ w → (BitVec.ofNat w j).toInt = j := fun hj => by
    rw [BitVec.toInt_ofNat']
    exact Int.bmod_eq_of_le (by omega) (by omega)
  have hword : (BitVec.ofNat w i).smod (BitVec.ofNat w m) = BitVec.ofNat w i := by
    refine BitVec.eq_of_toInt_eq ?_
    rw [BitVec.toInt_smod, hsmall hm, hsmall (by omega)]
    exact Int.fmod_eq_of_lt (by omega) (by omega)
  rw [hword, BitVec.toNat_ofNat, Nat.mod_eq_of_lt (by omega)]

end Word

/-! ### Element types -/

/-- The operations of an element type are those of the words that its values are. -/
structure WrappingOps.OnWords {α : Type} (ops : WrappingOps α) (signed : Bool)
    (word : α → BitVec ops.bits) : Prop where
  arithmetic : ∀ op a b,
    word (ops.arithmetic op a b) = Word.arithmetic signed op (word a) (word b)
  shift : ∀ op a places, places < ops.bits →
    word (ops.shift op a places) = Word.shift signed op (word a) places

namespace WrappingOps

variable {α : Type} {ops : WrappingOps α} {word : α → BitVec ops.bits}

/-- With a sign, the number of places is given as a word that is reduced once more. -/
lemma OnWords.of_signed
    (h : ∀ op a b, word (ops.arithmetic op a b) = Word.arithmetic true op (word a) (word b))
    (hbits : 2 * ops.bits < 2 ^ ops.bits)
    (hshift : ∀ op a i, word (ops.shift op a i) = Word.shift true op (word a)
      ((BitVec.ofNat ops.bits i).smod (BitVec.ofNat ops.bits ops.bits)).toNat) :
    ops.OnWords true word :=
  ⟨h, fun op a i hi => by rw [hshift, Word.toNat_ofNat_smod hbits hi]⟩

/-- So it is without a sign. -/
lemma OnWords.of_unsigned
    (h : ∀ op a b, word (ops.arithmetic op a b) = Word.arithmetic false op (word a) (word b))
    (hbits : ops.bits < 2 ^ ops.bits)
    (hshift : ∀ op a i, word (ops.shift op a i) = Word.shift false op (word a)
      (BitVec.ofNat ops.bits i % BitVec.ofNat ops.bits ops.bits).toNat) :
    ops.OnWords false word :=
  ⟨h, fun op a i hi => by rw [hshift, Word.toNat_ofNat_umod hbits hi]⟩

end WrappingOps

/-! ### Kinds -/

namespace Kind

variable {k : Kind} {ops : WrappingOps k.Value}

/-- Whether the integers of a kind have a sign. -/
def isSigned : Kind → Bool
  | .int8 | .int16 | .int32 | .int64 => true
  | _ => false

/-- The number of bits of a value. -/
def bits (k : Kind) : ℕ := 8 * k.width

/-- An integer reduced modulo `2 ^ k.bits` into the range of the kind. -/
def wrap (k : Kind) (n : ℤ) : ℤ := Word.wrap k.isSigned k.bits n

lemma wrap_modEq (k : Kind) (n : ℤ) : k.wrap n ≡ n [ZMOD (2 ^ k.bits : ℕ)] :=
  Word.wrap_modEq _ _ n

lemma wrap_eq_wrap_iff {m n : ℤ} : k.wrap m = k.wrap n ↔ m ≡ n [ZMOD (2 ^ k.bits : ℕ)] :=
  Word.wrap_eq_wrap_iff

example : Kind.int8.wrap 200 = -56 ∧ Kind.uint8.wrap (-1) = 255 := by decide

/-- The operations of an integer kind give the exact results, reduced into the range of the kind. -/
structure Wraps (k : Kind) (ops : WrappingOps k.Value) : Prop where
  arithmetic_eq : k.arithmetic = .wrapping ops
  bits_eq : ops.bits = k.bits
  key_zero : Value.key k.zero = 0
  key_injective : Function.Injective (Value.key (k := k))
  /-- Values are in range. -/
  wrap_key : ∀ v : k.Value, k.wrap (Value.key v) = Value.key v
  key_arithmetic : ∀ (op : ArithmeticOp) (a b : k.Value),
    Value.key (ops.arithmetic op a b) = k.wrap (op.exact (Value.key a) (Value.key b))
  /-- A remainder needs no reduction. -/
  key_modulo : ∀ a b : k.Value,
    Value.key (ops.arithmetic .modulo a b) = (Value.key a).tmod (Value.key b)
  key_shift_left : ∀ (a : k.Value) (places : ℕ), places < k.bits →
    Value.key (ops.shift .left a places) = k.wrap (Value.key a * 2 ^ places)
  key_shift_right : ∀ (a : k.Value) (places : ℕ), places < k.bits →
    Value.key (ops.shift .right a places) = Value.key a / 2 ^ places

lemma ne_float (hk : k.support = .integral) : k ≠ .float32 ∧ k ≠ .float64 := by
  constructor <;> rintro rfl <;> cases hk

/-- The values of an integer kind are words, and their keys are what these stand for. -/
lemma exists_onWords (hk : k.support = .integral) :
    ∃ (ops : WrappingOps k.Value) (word : k.Value → BitVec ops.bits),
      k.arithmetic = .wrapping ops ∧ ops.bits = k.bits ∧ ops.OnWords k.isSigned word ∧
        ∀ v, Value.key v = Word.read k.isSigned (word v) := by
  cases k with
  | bool | float32 | float64 | decimal => cases hk
  | int8 =>
    exact ⟨_, Int8.toBitVec, rfl, rfl, .of_signed (fun op _ _ => by cases op <;> rfl) (by decide)
      (fun op _ _ => by cases op <;> rfl), fun _ => rfl⟩
  | int16 =>
    exact ⟨_, Int16.toBitVec, rfl, rfl, .of_signed (fun op _ _ => by cases op <;> rfl) (by decide)
      (fun op _ _ => by cases op <;> rfl), fun _ => rfl⟩
  | int32 =>
    exact ⟨_, Int32.toBitVec, rfl, rfl, .of_signed (fun op _ _ => by cases op <;> rfl) (by decide)
      (fun op _ _ => by cases op <;> rfl), fun _ => rfl⟩
  | int64 =>
    exact ⟨_, Int64.toBitVec, rfl, rfl, .of_signed (fun op _ _ => by cases op <;> rfl) (by decide)
      (fun op _ _ => by cases op <;> rfl), fun _ => rfl⟩
  | uint8 =>
    exact ⟨_, UInt8.toBitVec, rfl, rfl, .of_unsigned (fun op _ _ => by cases op <;> rfl)
      (by decide) (fun op _ _ => by cases op <;> rfl), fun _ => rfl⟩
  | uint16 =>
    exact ⟨_, UInt16.toBitVec, rfl, rfl, .of_unsigned (fun op _ _ => by cases op <;> rfl)
      (by decide) (fun op _ _ => by cases op <;> rfl), fun _ => rfl⟩
  | uint32 =>
    exact ⟨_, UInt32.toBitVec, rfl, rfl, .of_unsigned (fun op _ _ => by cases op <;> rfl)
      (by decide) (fun op _ _ => by cases op <;> rfl), fun _ => rfl⟩
  | uint64 =>
    exact ⟨_, UInt64.toBitVec, rfl, rfl, .of_unsigned (fun op _ _ => by cases op <;> rfl)
      (by decide) (fun op _ _ => by cases op <;> rfl), fun _ => rfl⟩
  | char16 =>
    exact ⟨_, fun a => a.unit.toBitVec, rfl, rfl, .of_unsigned (fun op _ _ => by cases op <;> rfl)
      (by decide) (fun op _ _ => by cases op <;> rfl), fun _ => rfl⟩

/-- The integer of a word is its number, reduced into the range of the kind. -/
theorem key_ofWord (hk : k.support = .integral) (n : ℕ) :
    Value.key (k.element.ofWord n : k.Value) = k.wrap n := by
  cases k with
  | bool | float32 | float64 | decimal => cases hk
  | int8 => exact Word.read_ofNat true 8 n
  | int16 => exact Word.read_ofNat true 16 n
  | int32 => exact Word.read_ofNat true 32 n
  | int64 => exact Word.read_ofNat true 64 n
  | uint8 => exact Word.read_ofNat false 8 n
  | uint16 | char16 => exact Word.read_ofNat false 16 n
  | uint32 => exact Word.read_ofNat false 32 n
  | uint64 => exact Word.read_ofNat false 64 n

theorem exists_wraps (hk : k.support = .integral) : ∃ ops, k.Wraps ops := by
  obtain ⟨ops, word, harith, hbits, hwords, hkey⟩ := exists_onWords hk
  obtain ⟨h32, h64⟩ := ne_float hk
  use ops
  constructor
  case arithmetic_eq => exact harith
  case bits_eq => exact hbits
  case key_zero => cases k <;> rfl
  case key_injective => exact fun _ _ => Value.key_injective h32 h64
  -- The key of a value is the integer of its word, and operators work on words.
  case wrap_key =>
    intro v
    rw [wrap, ← hbits, hkey, Word.wrap_read]
  case key_arithmetic =>
    intro op a b
    rw [wrap, ← hbits, hkey, hkey, hkey, hwords.arithmetic, Word.read_arithmetic]
  case key_modulo =>
    intro a b
    rw [hkey, hkey, hkey, hwords.arithmetic, Word.read_modulo]
  case key_shift_left =>
    intro a places hplaces
    rw [wrap, ← hbits, hkey, hkey, hwords.shift _ _ _ (by rwa [hbits]), Word.read_shift_left]
  case key_shift_right =>
    intro a places hplaces
    rw [hkey, hkey, hwords.shift _ _ _ (by rwa [hbits]), Word.read_shift_right]

namespace Wraps

lemma support_eq (h : k.Wraps ops) : k.support = .integral := by
  rw [← k.support_arithmetic, h.arithmetic_eq]
  rfl

/-- Integers have every operator. -/
lemma allows (h : k.Wraps ops) (op : Operator) : k.support.allows op := by
  rw [h.support_eq]
  rcases op with (op | op) | op | op <;> simp [Support.allows, Support.integral]

/-- An operator on two values: division refuses a zero, and nothing else is refused. -/
lemma onValues_eq (h : k.Wraps ops) (op : ArithmeticOp) (a b : k.Value) :
    BinaryOp.onValues (.arithmetic op) a b =
      if op.isDivision && Value.isZero b then .error (.divideByZero k)
      else .ok (ops.arithmetic op a b) := by
  simp only [BinaryOp.onValues, h.arithmetic_eq]

lemma onValue_eq (h : k.Wraps ops) (op : ShiftOp) (v : k.Value) (amount : Int32) :
    op.onValue v amount = .ok (ops.shift op v (ops.places amount)) := by
  simp only [ShiftOp.onValue, h.arithmetic_eq]

/-- The number of places is the amount modulo the number of bits. As this divides `2 ^ 32`, it does
not matter that a negative amount is read without its sign before. -/
lemma places_eq (h : k.Wraps ops) (amount : Int32) :
    (ops.places amount : ℤ) = amount.toInt % k.bits := by
  have hdvd : (k.bits : ℤ) ∣ (2 ^ 32 : ℕ) := by cases k <;> decide
  have hamount : (amount.toUInt32.toNat : ℤ) ≡ amount.toInt [ZMOD (2 ^ 32 : ℕ)] :=
    Word.toNat_modEq true amount.toBitVec
  rw [WrappingOps.places, h.bits_eq, Int.natCast_mod]
  exact hamount.of_dvd hdvd

lemma places_lt (h : k.Wraps ops) (amount : Int32) : ops.places amount < k.bits := by
  rw [WrappingOps.places, h.bits_eq]
  exact Nat.mod_lt _ (Nat.mul_pos (by decide) k.width_pos)

end Wraps

end Kind

end Columnar
