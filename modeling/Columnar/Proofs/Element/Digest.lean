import Mathlib
import Columnar.Value
/-!
# Keys and counted bits

A value is grouped by its key and counted by its bits. For booleans, integers and code units the two
tell the same values apart. They differ for two families of kinds. Floating-point words that are not
numbers share one key, but each keeps bits of its own. Decimals are wider than the bits by which
they are counted, and different ones may share them.
-/

namespace Columnar

/-! ### Floating-point words -/

namespace Ieee.Format

variable {f : Format} {word word' : ℕ}

lemma two_mul_signWord (f : Format) : 2 * f.signWord = 2 ^ f.width := by
  rw [signWord, width, Nat.one_shiftLeft, pow_succ, mul_comm]

lemma Word.toNat_lt (a : f.Word) : a.toNat < 2 ^ f.width := a.bits.isLt

/-- A word is its sign and its magnitude. -/
lemma eq_of_magnitude_eq (h : word < 2 ^ f.width) (h' : word' < 2 ^ f.width)
    (hsign : f.isNegative word = f.isNegative word') (hmag : f.magnitude word = f.magnitude word') :
    word = word' := by
  rw [← two_mul_signWord] at h h'
  have hdiv : word / f.signWord < 2 := Nat.div_lt_of_lt_mul (by omega)
  have hdiv' : word' / f.signWord < 2 := Nat.div_lt_of_lt_mul (by omega)
  have hquot : word / f.signWord = word' / f.signWord := by
    have hbit : ∀ a b : ℕ, a < 2 → b < 2 → (a % 2 = 1 ↔ b % 2 = 1) → a = b := by omega
    rw [isNegative, isNegative, decide_eq_decide] at hsign
    exact hbit _ _ hdiv hdiv' hsign
  calc
    word = f.signWord * (word / f.signWord) + f.magnitude word :=
      (Nat.div_add_mod word f.signWord).symm
    _ = f.signWord * (word' / f.signWord) + f.magnitude word' := by rw [hquot, hmag]
    _ = word' := Nat.div_add_mod word' f.signWord

/-! Words that are not numbers -/

lemma magnitude_lt (f : Format) (word : ℕ) : f.magnitude word < f.signWord := by
  refine Nat.mod_lt _ ?_
  rw [signWord, Nat.one_shiftLeft]
  exact Nat.two_pow_pos _

lemma orderKey_of_isNaN (h : f.isNaN word = true) : f.orderKey word = f.signWord := by
  rw [orderKey, if_pos h]

/-- The key of a number is its magnitude with its sign. -/
lemma orderKey_of_not_isNaN (h : f.isNaN word = false) :
    f.orderKey word
      = if f.isNegative word then -(f.magnitude word : ℤ) else (f.magnitude word : ℤ) := by
  rw [orderKey, h, if_neg Bool.false_ne_true]

/-- A word that is not a number comes after all numbers. -/
lemma orderKey_lt_of_not_isNaN (h : f.isNaN word = false) : f.orderKey word < f.signWord := by
  have hlt := f.magnitude_lt word
  rw [orderKey_of_not_isNaN h]
  split_ifs
  · omega
  · omega

/-- What is not a number shares its key with nothing else. -/
lemma isNaN_eq_of_orderKey_eq (h : f.orderKey word = f.orderKey word') :
    f.isNaN word = f.isNaN word' := by
  rcases hn : f.isNaN word with _ | _
  · rcases hn' : f.isNaN word' with _ | _
    · rfl
    · have hlt := orderKey_lt_of_not_isNaN hn
      rw [h, orderKey_of_isNaN hn'] at hlt
      exact absurd hlt (lt_irrefl _)
  · rcases hn' : f.isNaN word' with _ | _
    · have hlt := orderKey_lt_of_not_isNaN hn'
      rw [← h, orderKey_of_isNaN hn] at hlt
      exact absurd hlt (lt_irrefl _)
    · rfl

/-! The words by which numbers are counted -/

lemma countedWord_lt (h : word < 2 ^ f.width) : f.countedWord word < 2 ^ f.width := by
  rw [countedWord]
  split_ifs
  · exact Nat.two_pow_pos _
  · exact h

/-- Being counted without the sign of zero, a word keeps its key. -/
lemma orderKey_countedWord (f : Format) (word : ℕ) :
    f.orderKey (f.countedWord word) = f.orderKey word := by
  rw [countedWord]
  split_ifs with hzero
  · -- the word is one of the two zeros
    have hmag : f.magnitude 0 = 0 := Nat.zero_mod _
    have hkey : ∀ w, f.magnitude w = 0 → f.orderKey w = 0 := by
      intro w hw
      have hn : f.isNaN w = false := by
        rw [isNaN, hw]
        exact decide_eq_false (Nat.not_lt_zero _)
      rw [orderKey_of_not_isNaN hn, hw]
      simp
    rw [hkey 0 hmag, hkey word hzero]
  · rfl

/-- A word that is not a number is counted as it is. -/
lemma countedWord_of_isNaN (h : f.isNaN word = true) : f.countedWord word = word := by
  refine if_neg fun hzero => ?_
  rw [isNaN, hzero] at h
  exact absurd (of_decide_eq_true h) (Nat.not_lt_zero _)

/-- Numbers of one key are counted alike. -/
lemma countedWord_eq_of_orderKey_eq (h : word < 2 ^ f.width) (h' : word' < 2 ^ f.width)
    (hn : f.isNaN word = false) (hn' : f.isNaN word' = false)
    (hkey : f.orderKey word = f.orderKey word') : f.countedWord word = f.countedWord word' := by
  rw [orderKey_of_not_isNaN hn, orderKey_of_not_isNaN hn'] at hkey
  by_cases hsign : f.isNegative word = f.isNegative word'
  · have hmag : f.magnitude word = f.magnitude word' := by
      rw [hsign] at hkey
      split_ifs at hkey
      · omega
      · omega
    rw [eq_of_magnitude_eq h h' hsign hmag]
  · -- numbers of opposite signs that have one key are the two zeros
    have hmag : f.magnitude word = 0 ∧ f.magnitude word' = 0 := by
      rcases hs : f.isNegative word with _ | _
      · have hs' : f.isNegative word' = true := by
          rw [hs] at hsign
          exact Bool.eq_true_of_not_eq_false (Ne.symm hsign)
        rw [hs, hs', if_neg Bool.false_ne_true, if_pos rfl] at hkey
        omega
      · have hs' : f.isNegative word' = false := by
          rw [hs] at hsign
          exact Bool.eq_false_of_not_eq_true (Ne.symm hsign)
        rw [hs, hs', if_neg Bool.false_ne_true, if_pos rfl] at hkey
        omega
    rw [countedWord, countedWord, if_pos hmag.1, if_pos hmag.2]

/-- Two words have one key exactly if they are counted alike, or if neither is a number. -/
theorem orderKey_eq_iff (h : word < 2 ^ f.width) (h' : word' < 2 ^ f.width) :
    f.orderKey word = f.orderKey word' ↔
      f.countedWord word = f.countedWord word' ∨ f.isNaN word = true ∧ f.isNaN word' = true := by
  constructor
  · intro hkey
    have hnan := isNaN_eq_of_orderKey_eq hkey
    rcases hn : f.isNaN word with _ | _
    · exact Or.inl (countedWord_eq_of_orderKey_eq h h' hn (hnan.symm.trans hn) hkey)
    · exact Or.inr ⟨rfl, hnan.symm.trans hn⟩
  · rintro (hcounted | ⟨hn, hn'⟩)
    · rw [← f.orderKey_countedWord word, hcounted, f.orderKey_countedWord word']
    · rw [orderKey_of_isNaN hn, orderKey_of_isNaN hn']

end Ieee.Format

/-! ### Element types -/

namespace Element

/-- The keys of an element type and the bits by which its values are counted tell the same values
apart, except that all unordered values have one key. -/
def Faithful {α : Type} (e : Element α) : Prop :=
  ∀ v w, e.key v = e.key w ↔
    e.hashBits v = e.hashBits w ∨ e.isUnordered v = true ∧ e.isUnordered w = true

variable {α : Type} {e : Element α}

/-- Nothing is unordered, and the keys tell apart what the bits do. -/
lemma faithful_of_ordered (hordered : ∀ v, e.isUnordered v = false)
    (h : ∀ v w, e.key v = e.key w ↔ e.hashBits v = e.hashBits w) : e.Faithful := by
  intro v w
  rw [h, hordered v]
  exact (or_iff_left fun hboth => Bool.false_ne_true hboth.1).symm

/-- The key is the number of the counted bits. -/
lemma faithful_of_unsigned (hordered : ∀ v, e.isUnordered v = false)
    (h : ∀ v, e.key v = (e.hashBits v).toNat) : e.Faithful := by
  refine faithful_of_ordered hordered fun v w => ?_
  rw [h, h, Nat.cast_inj, UInt64.toNat_inj]

/-- The key is the number of the counted bits, read with a sign. -/
lemma faithful_of_signed (hordered : ∀ v, e.isUnordered v = false)
    (h : ∀ v, e.key v = (e.hashBits v).toInt64.toInt) : e.Faithful := by
  refine faithful_of_ordered hordered fun v w => ?_
  rw [h, h, Int64.toInt_inj]
  exact ⟨fun heq => congrArg Int64.toUInt64 heq, congrArg UInt64.toInt64⟩

/-- Two words of a format of at most 64 bits are counted by the same bits if the counted words are
the same. -/
lemma ofNat_countedWord_eq_iff {f : Ieee.Format} (hwidth : f.width ≤ 64) (v w : f.Word) :
    UInt64.ofNat (f.countedWord v.toNat) = UInt64.ofNat (f.countedWord w.toNat) ↔
      f.countedWord v.toNat = f.countedWord w.toNat := by
  have hlt : ∀ a : f.Word, f.countedWord a.toNat < 2 ^ 64 := fun a =>
    (Ieee.Format.countedWord_lt a.toNat_lt).trans_le (Nat.pow_le_pow_right (by decide) hwidth)
  rw [← UInt64.toNat_inj, UInt64.toNat_ofNat_of_lt' (hlt v), UInt64.toNat_ofNat_of_lt' (hlt w)]

lemma faithful_ofFormat {f : Ieee.Format} (hwidth : f.width ≤ 64) [Add α] [Sub α] [Mul α] [Div α]
    (one : α) (read : f.Word → α) (write : α → f.Word) (toFloat : α → Float) :
    (ofFormat f one read write toFloat).Faithful := by
  intro v w
  show f.orderKey v.toNat = f.orderKey w.toNat ↔
    UInt64.ofNat (f.countedWord v.toNat) = UInt64.ofNat (f.countedWord w.toNat) ∨ _
  rw [ofNat_countedWord_eq_iff hwidth v w]
  exact Ieee.Format.orderKey_eq_iff v.toNat_lt w.toNat_lt

end Element

namespace Kind.Value

variable {k : Kind}

/-- For every kind but decimals, values have one key exactly if they are counted by the same bits
or neither is ordered. -/
theorem faithful_of_ne_decimal (hk : k ≠ .decimal) : k.element.Faithful := by
  cases k with
  | bool => exact Element.faithful_of_unsigned (fun _ => rfl) (by decide)
  | int8 => exact Element.faithful_of_signed (fun _ => rfl) fun v => (Int8.toInt_toInt64 v).symm
  | int16 => exact Element.faithful_of_signed (fun _ => rfl) fun v => (Int16.toInt_toInt64 v).symm
  | int32 => exact Element.faithful_of_signed (fun _ => rfl) fun v => (Int32.toInt_toInt64 v).symm
  | int64 => exact Element.faithful_of_signed (fun _ => rfl) fun v => rfl
  | uint8 => exact Element.faithful_of_unsigned (fun _ => rfl) fun v => rfl
  | uint16 => exact Element.faithful_of_unsigned (fun _ => rfl) fun v => rfl
  | uint32 => exact Element.faithful_of_unsigned (fun _ => rfl) fun v => rfl
  | uint64 => exact Element.faithful_of_unsigned (fun _ => rfl) fun v => rfl
  | char16 => exact Element.faithful_of_unsigned (fun _ => rfl) fun v => rfl
  | float32 => exact Element.faithful_ofFormat (by decide) _ _ _ _
  | float64 => exact Element.faithful_ofFormat (by decide) _ _ _ _
  | decimal => exact absurd rfl hk

/-- Only floating-point values can be unordered. -/
lemma isUnordered_of_ne_float (h32 : k ≠ .float32) (h64 : k ≠ .float64) (v : k.Value) :
    isUnordered v = false := by
  cases k with
  | float32 => exact absurd rfl h32
  | float64 => exact absurd rfl h64
  | _ => rfl

/-- Values that share their bits share their key, unless they are decimals. -/
lemma key_eq_of_hashBits_eq (hk : k ≠ .decimal) {v w : k.Value} (h : hashBits v = hashBits w) :
    key v = key w :=
  (faithful_of_ne_decimal hk v w).2 (Or.inl h)

/-- Values that share their key share their bits, unless neither is ordered. -/
lemma hashBits_eq_of_key_eq {v w : k.Value} (h : key v = key w) :
    hashBits v = hashBits w ∨ isUnordered v = true ∧ isUnordered w = true := by
  by_cases hk : k = .decimal
  · subst hk
    have hraw : v = w := (Decimal.mk.injEq ..).mpr h
    exact Or.inl (congrArg hashBits hraw)
  · exact (faithful_of_ne_decimal hk v w).1 h

/-- Unordered values have one key, which no other value has. -/
lemma key_eq_of_isUnordered {v w : k.Value} (hv : isUnordered v = true)
    (hw : isUnordered w = true) : key v = key w := by
  by_cases hk : k = .decimal
  · subst hk
    exact absurd hv Bool.false_ne_true
  · exact (faithful_of_ne_decimal hk v w).2 (Or.inr ⟨hv, hw⟩)

/-- Unordered values are counted by all of their bits. -/
lemma eq_of_isUnordered_of_hashBits_eq {v w : k.Value} (hv : isUnordered v = true)
    (hw : isUnordered w = true) (h : hashBits v = hashBits w) : v = w := by
  have hword : ∀ {f : Ieee.Format}, f.width ≤ 64 → ∀ a b : f.Word,
      a.isNaN = true → b.isNaN = true →
      UInt64.ofNat (f.countedWord a.toNat) = UInt64.ofNat (f.countedWord b.toNat) → a = b := by
    intro f hwidth a b ha hb hbits
    rw [Element.ofNat_countedWord_eq_iff hwidth, Ieee.Format.countedWord_of_isNaN ha,
      Ieee.Format.countedWord_of_isNaN hb] at hbits
    exact Ieee.Format.Word.eq_of_toNat_eq hbits
  by_cases h32 : k = .float32
  · subst h32
    exact hword (by decide) v w hv hw h
  by_cases h64 : k = .float64
  · subst h64
    exact hword (by decide) v w hv hw h
  rw [isUnordered_of_ne_float h32 h64] at hv
  exact absurd hv Bool.false_ne_true

/-- Apart from floating-point numbers, values are told apart by their keys. -/
lemma key_injective {k : Kind} (h32 : k ≠ .float32) (h64 : k ≠ .float64) {v w : k.Value}
    (h : key v = key w) : v = w := by
  cases k with
  | bool =>
    revert v w
    decide
  | int8 => exact Int8.toInt_inj.1 h
  | int16 => exact Int16.toInt_inj.1 h
  | int32 => exact Int32.toInt_inj.1 h
  | int64 => exact Int64.toInt_inj.1 h
  | uint8 => exact UInt8.toNat_inj.1 (Int.ofNat_inj.1 h)
  | uint16 => exact UInt16.toNat_inj.1 (Int.ofNat_inj.1 h)
  | uint32 => exact UInt32.toNat_inj.1 (Int.ofNat_inj.1 h)
  | uint64 => exact UInt64.toNat_inj.1 (Int.ofNat_inj.1 h)
  | char16 => exact congrArg Char16.mk (UInt16.toNat_inj.1 (Int.ofNat_inj.1 h))
  | decimal => exact (Decimal.mk.injEq ..).mpr h
  | float32 => exact absurd rfl h32
  | float64 => exact absurd rfl h64

end Kind.Value

end Columnar
