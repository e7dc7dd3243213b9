import Mathlib
import Columnar.Mask
/-!
# The flags of a validity mask

A mask is read as a list of flags. It is well-formed if it has just as many bytes as its flags take
and no bit set past its length; then the flags determine the bytes, and every operation that keeps
masks well-formed is described by what it does to the flags. The bit-level facts come first: they
say which bit of a byte string an operation on one of its bytes can reach.
-/

namespace Columnar

namespace Mask

/-- The bit of a byte string at an index. Bytes that are not there have no bit set. -/
def bitOf (bytes : Array UInt8) (index : ℕ) : Bool :=
  (bytes.getD (index / 8) 0).toBitVec.getLsbD (index % 8)

/-! ### Bits of one byte -/

lemma toBitVec_flag (i : ℕ) : (flag i).toBitVec = BitVec.twoPow 8 (i % 8) := by
  -- there are only eight flags
  have h : ∀ r < 8, ((1 : UInt8) <<< UInt8.ofNat r).toBitVec = BitVec.twoPow 8 r := by decide
  exact h _ (Nat.mod_lt _ (by decide))

lemma and_flag_ne_zero (b : UInt8) (i : ℕ) :
    (b &&& flag i != 0) = b.toBitVec.getLsbD (i % 8) := by
  have hz : (b &&& flag i = 0) ↔ b.toBitVec &&& BitVec.twoPow 8 (i % 8) = 0#8 := by
    rw [← UInt8.toBitVec_inj, UInt8.toBitVec_and, toBitVec_flag]
    rfl
  have h2 : BitVec.twoPow 8 (i % 8) ≠ 0#8 := by
    have h : ∀ r < 8, BitVec.twoPow 8 r ≠ 0#8 := by decide
    exact h _ (Nat.mod_lt _ (by decide))
  rw [BitVec.and_twoPow] at hz
  rcases hb : b.toBitVec.getLsbD (i % 8) with _ | _
  · rw [hb, if_neg Bool.false_ne_true] at hz
    exact bne_eq_false_iff_eq.2 (hz.2 rfl)
  · rw [hb, if_pos rfl] at hz
    exact bne_iff_ne.2 fun hzero => h2 (hz.1 hzero)

lemma getLsbD_or_flag (b : UInt8) (n i : ℕ) :
    (b ||| flag n).toBitVec.getLsbD (i % 8)
      = (b.toBitVec.getLsbD (i % 8) || decide (i % 8 = n % 8)) := by
  rw [UInt8.toBitVec_or, BitVec.getLsbD_or, toBitVec_flag, BitVec.getLsbD_twoPow]
  have := Nat.mod_lt n (show 0 < 8 by decide)
  simp [this, eq_comm]

lemma getLsbD_and_not_flag (b : UInt8) (n i : ℕ) :
    (b &&& ~~~flag n).toBitVec.getLsbD (i % 8)
      = (b.toBitVec.getLsbD (i % 8) && decide (i % 8 ≠ n % 8)) := by
  have hi := Nat.mod_lt i (show 0 < 8 by decide)
  have hn := Nat.mod_lt n (show 0 < 8 by decide)
  rw [UInt8.toBitVec_and, BitVec.getLsbD_and, UInt8.toBitVec_not, BitVec.getLsbD_not,
    toBitVec_flag, BitVec.getLsbD_twoPow]
  simp [hi, hn, eq_comm]

lemma getLsbD_tailMask (len : ℕ) {j : ℕ} (hj : j < 8) :
    (tailMask len).toBitVec.getLsbD j = decide (len % 8 = 0 ∨ j < len % 8) := by
  have h : ∀ r < 8, ∀ j < 8,
      (if r = 0 then (255 : UInt8) else 1 <<< UInt8.ofNat r - 1).toBitVec.getLsbD j
        = decide (r = 0 ∨ j < r) := by decide
  exact h _ (Nat.mod_lt _ (by decide)) _ hj

lemma getLsbD_allSet (i : ℕ) : (255 : UInt8).toBitVec.getLsbD (i % 8) = true := by
  have h : ∀ r < 8, (255 : UInt8).toBitVec.getLsbD r = true := by decide
  exact h _ (Nat.mod_lt _ (by decide))

/-! ### Bits of a byte string -/

lemma isValid_eq_bitOf (m : Mask) (i : ℕ) : m.isValid i = bitOf m.bytes i :=
  and_flag_ne_zero _ i

lemma bitOf_of_size_le {bytes : Array UInt8} {i : ℕ} (h : bytes.size ≤ i / 8) :
    bitOf bytes i = false := by
  simp [bitOf, Array.getD_eq_getD_getElem?, Array.getElem?_eq_none h]

lemma bitOf_modify (bytes : Array UInt8) (j : ℕ) (f : UInt8 → UInt8) (i : ℕ) :
    bitOf (bytes.modify j f) i
      = if i / 8 = j ∧ j < bytes.size then (f (bytes.getD j 0)).toBitVec.getLsbD (i % 8)
        else bitOf bytes i := by
  simp only [bitOf, Array.getD_eq_getD_getElem?, Array.getElem?_modify]
  by_cases hj : j = i / 8
  · subst hj
    by_cases hs : i / 8 < bytes.size
    · simp [hs]
    · simp [hs]
  · simp [hj, Ne.symm hj]

lemma bitOf_push_zero (bytes : Array UInt8) (i : ℕ) :
    bitOf (bytes.push 0) i = bitOf bytes i := by
  simp only [bitOf, Array.getD_eq_getD_getElem?, Array.getElem?_push]
  split_ifs with hlast
  · -- the new byte reads as the bytes past the end do
    rw [hlast, Array.getElem?_eq_none le_rfl]
    rfl
  · rfl

lemma bitOf_take (bytes : Array UInt8) (n i : ℕ) :
    bitOf (bytes.take n) i = (decide (i / 8 < n) && bitOf bytes i) := by
  simp only [bitOf, Array.getD_eq_getD_getElem?, Array.take_eq_extract, Array.getElem?_extract]
  by_cases hn : i / 8 < n
  · by_cases hs : i / 8 < bytes.size
    · simp [hn, hs]
    · simp [hs]
  · simp [hn]

lemma bitOf_resizeBytes (bytes : Array UInt8) (count : ℕ) (fill : UInt8) (i : ℕ) :
    bitOf (resizeBytes bytes count fill) i
      = (decide (i / 8 < count) &&
          if i / 8 < bytes.size then bitOf bytes i else fill.toBitVec.getLsbD (i % 8)) := by
  have hsize : (bytes.take count).size = min count bytes.size := by simp
  by_cases hs : i / 8 < bytes.size
  · by_cases hc : i / 8 < count
    · have hlt : i / 8 < (bytes.take count).size := by omega
      have h := bitOf_take bytes count i
      simp only [bitOf, Array.getD_eq_getD_getElem?] at h
      simp only [bitOf, resizeBytes, Array.getD_eq_getD_getElem?, Array.getElem?_append, hlt, hs,
        if_true, h]
    · -- the byte is cut off
      rw [bitOf_of_size_le]
      · simp [hc]
      · simp only [resizeBytes, Array.size_append, hsize, Array.size_replicate]
        omega
  · by_cases hc : i / 8 < count
    · have hlt : ¬ i / 8 < (bytes.take count).size := by omega
      have hr : i / 8 - (bytes.take count).size < count - bytes.size := by omega
      simp only [bitOf, resizeBytes, Array.getD_eq_getD_getElem?, Array.getElem?_append, hlt, hs,
        if_false, Array.getElem?_replicate, hr, if_true]
      simp [hc]
    · rw [bitOf_of_size_le]
      · simp [hc]
      · simp only [resizeBytes, Array.size_append, hsize, Array.size_replicate]
        omega

lemma size_resizeBytes (bytes : Array UInt8) (count : ℕ) (fill : UInt8) :
    (resizeBytes bytes count fill).size = count := by
  simp only [resizeBytes, Array.size_append, Array.size_replicate, Array.take_eq_extract,
    Array.size_extract]
  omega

/-- Clearing the tail of a string of just as many bytes as `len` flags take keeps the bits before
`len` and no others. -/
lemma bitOf_clearTail {bytes : Array UInt8} {len : ℕ} (hsize : bytes.size = byteCount len)
    (i : ℕ) : bitOf (clearTail bytes len) i = (decide (i < len) && bitOf bytes i) := by
  unfold byteCount at hsize
  have hi := Nat.mod_lt i (show 0 < 8 by decide)
  rw [clearTail, bitOf_modify]
  split_ifs with h
  · -- the last byte, in which some bits may be in use
    obtain ⟨h1, h2⟩ := h
    rw [UInt8.toBitVec_and, BitVec.getLsbD_and, getLsbD_tailMask len hi, Bool.and_comm, ← h1]
    congr 1
    rw [decide_eq_decide]
    omega
  · by_cases hs : i / 8 < bytes.size
    · have : i < len := by omega
      simp [this]
    · simp [bitOf_of_size_le (Nat.le_of_not_lt hs)]

@[simp] lemma size_clearTail (bytes : Array UInt8) (len : ℕ) :
    (clearTail bytes len).size = bytes.size := by
  simp [clearTail]

/-! ### Well-formed masks -/

/-- A mask with just as many bytes as its flags take, and no bit set past its length. -/
structure WellFormed (m : Mask) : Prop where
  size_bytes : m.bytes.size = byteCount m.len
  tail_clear : ∀ i, m.len ≤ i → m.isValid i = false

namespace WellFormed

variable {m m' : Mask}

lemma index_lt (h : m.WellFormed) {i : ℕ} (hi : i < m.len) : i / 8 < m.bytes.size := by
  rw [h.size_bytes, byteCount]
  omega

/-- Two well-formed masks with the same flags are the same mask. -/
theorem ext (h : m.WellFormed) (h' : m'.WellFormed) (hlen : m.len = m'.len)
    (hbits : ∀ i < m.len, m.isValid i = m'.isValid i) : m = m' := by
  have hsize : m.bytes.size = m'.bytes.size := by rw [h.size_bytes, h'.size_bytes, hlen]
  -- past the length both are clear, so that the masks agree in whole bytes
  have hall : ∀ i, bitOf m.bytes i = bitOf m'.bytes i := by
    intro i
    rw [← isValid_eq_bitOf, ← isValid_eq_bitOf]
    by_cases hi : i < m.len
    · exact hbits i hi
    · rw [h.tail_clear i (by omega), h'.tail_clear i (by omega)]
  have hbytes : m.bytes = m'.bytes := by
    apply Array.ext hsize
    intro j hj hj'
    apply UInt8.eq_of_toBitVec_eq
    apply BitVec.eq_of_getLsbD_eq
    intro b hb
    have hidx : (8 * j + b) / 8 = j ∧ (8 * j + b) % 8 = b := by omega
    have := hall (8 * j + b)
    simpa [bitOf, hidx.1, hidx.2, Array.getD_eq_getD_getElem?, hj, hj'] using this
  rcases m with ⟨bytes, len⟩
  rcases m' with ⟨bytes', len'⟩
  exact congrArg₂ Mask.mk hbytes hlen

end WellFormed

/-! ### What the operations do to the flags -/

variable {m other : Mask}

lemma wellFormed_empty : empty.WellFormed :=
  ⟨rfl, fun i _ => by rw [isValid_eq_bitOf, bitOf_of_size_le (by simp [empty])]⟩

/-- The flags after a push are the flags before it, and the new one. -/
lemma isValid_push (h : m.WellFormed) (valid : Bool) (i : ℕ) :
    (m.push valid).isValid i = if i = m.len then valid else m.isValid i := by
  have hsize := h.size_bytes
  unfold byteCount at hsize
  -- a new byte is zero, as the bits past the last byte read already
  have hbase : ∀ i, bitOf (if m.len % 8 = 0 then m.bytes.push 0 else m.bytes) i = m.isValid i := by
    intro i
    rw [isValid_eq_bitOf]
    split_ifs
    · exact bitOf_push_zero _ i
    · rfl
  have hlt : m.len / 8 < (if m.len % 8 = 0 then m.bytes.push 0 else m.bytes).size := by
    split_ifs
    · rw [Array.size_push]; omega
    · omega
  rw [isValid_eq_bitOf]
  simp only [push]
  cases valid
  · rw [if_neg (by decide), hbase]
    split_ifs with hi
    · exact hi ▸ h.tail_clear m.len le_rfl
    · rfl
  · rw [if_pos rfl, bitOf_modify]
    by_cases hbyte : i / 8 = m.len / 8
    · rw [if_pos ⟨hbyte, hlt⟩, getLsbD_or_flag]
      have hold := hbase i
      rw [bitOf, hbyte] at hold
      rw [hold]
      by_cases hi : i = m.len
      · simp [hi]
      · have hmod : i % 8 ≠ m.len % 8 := by omega
        simp [hi, hmod]
    · rw [if_neg (fun hc => hbyte hc.1), hbase, if_neg (fun hc => hbyte (by rw [hc]))]

@[simp] lemma len_push (m : Mask) (valid : Bool) : (m.push valid).len = m.len + 1 := rfl

lemma WellFormed.push (h : m.WellFormed) (valid : Bool) : (m.push valid).WellFormed := by
  refine ⟨?_, fun i hi => ?_⟩
  · have hsize := h.size_bytes
    simp only [byteCount, Mask.push] at hsize ⊢
    split_ifs <;> simp only [Array.size_modify, Array.size_push, hsize] <;> omega
  · rw [len_push] at hi
    rw [isValid_push h, if_neg (by omega)]
    exact h.tail_clear i (by omega)

@[simp] lemma len_set (m : Mask) (index : ℕ) (valid : Bool) : (m.set index valid).len = m.len := rfl

lemma isValid_set (h : m.WellFormed) {index : ℕ} (hindex : index < m.len) (valid : Bool) (i : ℕ) :
    (m.set index valid).isValid i = if i = index then valid else m.isValid i := by
  have hbyte := h.index_lt hindex
  rw [isValid_eq_bitOf, isValid_eq_bitOf, set, bitOf_modify]
  by_cases hi : i / 8 = index / 8
  · have hold : (m.bytes.getD (index / 8) 0).toBitVec.getLsbD (i % 8) = bitOf m.bytes i := by
      rw [bitOf, hi]
    have hmod : i % 8 = index % 8 ↔ i = index := by omega
    rw [if_pos ⟨hi, hbyte⟩]
    cases valid
    · rw [if_neg (by decide), getLsbD_and_not_flag, hold]
      by_cases hc : i = index <;> simp [hmod, hc]
    · rw [if_pos rfl, getLsbD_or_flag, hold]
      by_cases hc : i = index <;> simp [hmod, hc]
  · rw [if_neg (fun hc => hi hc.1), if_neg (fun hc => hi (by rw [hc]))]

lemma WellFormed.set (h : m.WellFormed) {index : ℕ} (hindex : index < m.len) (valid : Bool) :
    (m.set index valid).WellFormed := by
  refine ⟨by simpa [Mask.set] using h.size_bytes, fun i hi => ?_⟩
  rw [len_set] at hi
  rw [isValid_set h hindex, if_neg (by omega)]
  exact h.tail_clear i hi

/-- Setting the flags before an index one by one. -/
lemma foldl_set_true (h : m.WellFormed) {n : ℕ} (hn : n ≤ m.len) :
    ((List.range n).foldl (fun m i => m.set i true) m).WellFormed ∧
      ((List.range n).foldl (fun m i => m.set i true) m).len = m.len ∧
      ∀ i, ((List.range n).foldl (fun m i => m.set i true) m).isValid i
        = (decide (i < n) || m.isValid i) := by
  induction n with
  | zero => exact ⟨h, rfl, fun i => by simp⟩
  | succ n ih =>
    obtain ⟨hwf, hlen, hvalid⟩ := ih (by omega)
    have hlt : n < ((List.range n).foldl (fun m i => m.set i true) m).len := by omega
    rw [List.range_succ, List.foldl_append, List.foldl_cons, List.foldl_nil]
    refine ⟨hwf.set hlt true, by rw [len_set, hlen], fun i => ?_⟩
    rw [isValid_set hwf hlt, hvalid]
    by_cases hi : i = n
    · simp [hi]
    · have hiff : i < n + 1 ↔ i < n := by omega
      simp [hi, hiff]

/-- Completing the byte in use: bits are set in a range of indices that the bytes have. -/
lemma bitOf_setRange (n start : ℕ) (bytes : Array UInt8) (hn : start + n ≤ 8 * bytes.size)
    (i : ℕ) :
    bitOf ((List.range' start n).foldl (fun bytes i => bytes.modify (i / 8) (· ||| flag i)) bytes) i
      = (bitOf bytes i || decide (start ≤ i ∧ i < start + n)) := by
  induction n generalizing start bytes with
  | zero =>
    simp
  | succ n ih =>
    rw [List.range'_succ, List.foldl_cons, ih (start + 1) _ (by rw [Array.size_modify]; omega),
      bitOf_modify]
    by_cases hbyte : i / 8 = start / 8
    · rw [if_pos ⟨hbyte, by omega⟩, getLsbD_or_flag, ← hbyte, ← bitOf, Bool.or_assoc]
      congr 1
      rw [← Bool.decide_or, decide_eq_decide]
      omega
    · rw [if_neg (fun hc => hbyte hc.1)]
      congr 1
      rw [decide_eq_decide]
      omega

@[simp] lemma size_setRange (n start : ℕ) (bytes : Array UInt8) :
    ((List.range' start n).foldl (fun bytes i => bytes.modify (i / 8) (· ||| flag i)) bytes).size
      = bytes.size := by
  induction n generalizing start bytes with
  | zero => rfl
  | succ n ih => rw [List.range'_succ, List.foldl_cons, ih, Array.size_modify]

@[simp] lemma len_extend (m : Mask) (valid : Bool) (count : ℕ) :
    (m.extend valid count).len = m.len + count := by
  simp only [extend]
  split_ifs with h
  · simp [h]
  · rfl
  · rfl

/-- Clear flags are added as zero bytes. The bits past the length were clear already. -/
lemma isValid_extend_false (h : m.WellFormed) (count i : ℕ) :
    (m.extend false count).isValid i = m.isValid i := by
  have hsize := h.size_bytes
  have hclear := h.tail_clear i
  simp only [byteCount] at hsize
  simp only [isValid_eq_bitOf] at hclear ⊢
  simp only [extend]
  by_cases hcount : count = 0
  · rw [if_pos hcount]
  rw [if_neg hcount]
  simp only [Bool.false_eq_true, if_false, bitOf_resizeBytes, byteCount]
  by_cases hi : i < m.len
  · have hkept : i / 8 < (m.len + count + 7) / 8 := by omega
    have hused : i / 8 < m.bytes.size := by omega
    simp [hkept, hused]
  · rw [hclear (by omega)]
    simp

/-- Set flags complete the byte in use, further ones are added as full bytes, and what is too much
is cleared. -/
lemma isValid_extend_true (h : m.WellFormed) (count i : ℕ) :
    (m.extend true count).isValid i
      = (decide (m.len ≤ i ∧ i < m.len + count) || m.isValid i) := by
  have hsize := h.size_bytes
  have hclear := h.tail_clear i
  simp only [byteCount] at hsize
  simp only [isValid_eq_bitOf] at hclear ⊢
  simp only [extend]
  by_cases hcount : count = 0
  · rw [if_pos hcount, decide_eq_false (by omega), Bool.false_or]
  rw [if_neg hcount]
  have hin : m.len + min ((8 - m.len % 8) % 8) count ≤ 8 * m.bytes.size := by omega
  simp only [if_true]
  rw [bitOf_clearTail (size_resizeBytes ..), bitOf_resizeBytes, bitOf_setRange _ _ _ hin,
    size_setRange, byteCount, getLsbD_allSet]
  by_cases hnew : i < m.len + count
  · have hkept : i / 8 < (m.len + count + 7) / 8 := by omega
    by_cases hused : i / 8 < m.bytes.size
    · -- of the bytes in use, those bits are set that are past the length
      have hrange : (m.len ≤ i ∧ i < m.len + min ((8 - m.len % 8) % 8) count)
          ↔ (m.len ≤ i ∧ i < m.len + count) := by omega
      simp only [hnew, hkept, hused, hrange, decide_true, Bool.true_and, if_true, Bool.or_comm]
    · have hle : m.len ≤ i := by omega
      simp [hnew, hkept, hused, hle]
  · have hle : m.len ≤ i := by omega
    simp [hnew, hclear hle]

/-- Adding equal flags leaves the flags before them as they are. -/
lemma isValid_extend (h : m.WellFormed) (valid : Bool) (count i : ℕ) :
    (m.extend valid count).isValid i
      = if m.len ≤ i ∧ i < m.len + count then valid else m.isValid i := by
  rcases valid with _ | _
  · rw [isValid_extend_false h]
    split_ifs with hi
    · exact h.tail_clear i hi.1
    · rfl
  · rw [isValid_extend_true h]
    split_ifs with hi
    · simp [hi]
    · simp [hi]

lemma WellFormed.extend (h : m.WellFormed) (valid : Bool) (count : ℕ) :
    (m.extend valid count).WellFormed := by
  refine ⟨?_, fun i hi => ?_⟩
  · rw [len_extend]
    by_cases hcount : count = 0
    · simp [Mask.extend, hcount, h.size_bytes]
    · simp only [Mask.extend, if_neg hcount]
      cases valid <;> simp [size_resizeBytes]
  · rw [len_extend] at hi
    rw [isValid_extend h, if_neg (by omega)]
    exact h.tail_clear i (by omega)

@[simp] lemma len_truncate (m : Mask) (len : ℕ) : (m.truncate len).len = min len m.len := by
  simp only [truncate]
  split_ifs with h
  · omega
  · simp only
    omega

lemma isValid_truncate (h : m.WellFormed) (len i : ℕ) :
    (m.truncate len).isValid i = (decide (i < len) && m.isValid i) := by
  have hsize := h.size_bytes
  have hclear := h.tail_clear i
  simp only [truncate]
  split_ifs with hlen
  · by_cases hi : i < len
    · simp [hi]
    · simp [hi, hclear (by omega)]
  · have htake : (m.bytes.take (byteCount len)).size = byteCount len := by
      simp only [byteCount, Array.take_eq_extract, Array.size_extract] at hsize ⊢
      omega
    rw [isValid_eq_bitOf, isValid_eq_bitOf, bitOf_clearTail htake, bitOf_take, byteCount]
    by_cases hi : i < len
    · have : i / 8 < (len + 7) / 8 := by omega
      simp [hi, this]
    · simp [hi]

lemma WellFormed.truncate (h : m.WellFormed) (len : ℕ) : (m.truncate len).WellFormed := by
  refine ⟨?_, fun i hi => ?_⟩
  · have hsize := h.size_bytes
    rw [len_truncate]
    simp only [Mask.truncate]
    split_ifs with hlen
    · rw [hsize, min_eq_right hlen]
    · rw [min_eq_left (by omega), size_clearTail, Array.take_eq_extract, Array.size_extract]
      simp only [byteCount] at hsize ⊢
      omega
  · rw [len_truncate] at hi
    rw [isValid_truncate h]
    by_cases hlt : i < len
    · simp [h.tail_clear i (by omega)]
    · simp [hlt]

@[simp] lemma len_and (m other : Mask) : (m.and other).len = m.len := rfl

lemma isValid_and (hsize : m.bytes.size = other.bytes.size) (i : ℕ) :
    (m.and other).isValid i = (m.isValid i && other.isValid i) := by
  simp only [isValid_eq_bitOf, bitOf, Mask.and, Array.getD_eq_getD_getElem?, Array.getElem?_mapIdx]
  by_cases hi : i / 8 < m.bytes.size
  · have hi' : i / 8 < other.bytes.size := by omega
    simp [hi, hi']
  · simp [hi]

lemma WellFormed.and (h : m.WellFormed) (h' : other.WellFormed) (hlen : m.len = other.len) :
    (m.and other).WellFormed := by
  have hsize : m.bytes.size = other.bytes.size := by rw [h.size_bytes, h'.size_bytes, hlen]
  refine ⟨by simpa [Mask.and] using h.size_bytes, fun i hi => ?_⟩
  rw [len_and] at hi
  rw [isValid_and hsize, h.tail_clear i hi, Bool.false_and]

end Mask

end Columnar
