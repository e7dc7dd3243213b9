import Columnar.Proofs.Mask.Flags
/-!
# Counting nulls

The nulls of a range of flags are counted in three phases: single flags up to a byte boundary,
whole bytes, single flags again. The count is exactly the number of clear flags in the range,
wherever its two ends lie, and so the counts of adjacent ranges add up.
-/

namespace Columnar

namespace Mask

/-! ### The three phases -/

lemma popCount_eq_countP (bytes : Array UInt8) (j : ℕ) :
    popCount (bytes.getD j 0) = (List.range' (8 * j) 8).countP (bitOf bytes) := by
  rw [popCount, List.range'_eq_map_range, List.countP_map]
  apply List.countP_congr
  intro b hb
  have hb : b < 8 := List.mem_range.1 hb
  have hdiv : (8 * j + b) / 8 = j := by omega
  have hmod : (8 * j + b) % 8 = b := by omega
  rw [and_flag_ne_zero, Nat.mod_eq_of_lt hb, Function.comp_apply, bitOf, hdiv, hmod]

/-- The set bits of whole bytes. Bytes that are not there have none. -/
lemma sum_popCount (bytes : Array UInt8) (a n : ℕ) :
    (bytes.extract a (a + n)).foldl (fun count b => count + popCount b) 0
      = (List.range' (8 * a) (8 * n)).countP (bitOf bytes) := by
  induction n with
  | zero => simp
  | succ n ih =>
    have hsplit : List.range' (8 * a) (8 * (n + 1))
        = List.range' (8 * a) (8 * n) ++ List.range' (8 * (a + n)) 8 := by
      rw [Nat.mul_add 8 a n, List.range'_append_1, Nat.mul_succ]
    rw [hsplit, List.countP_append, ← popCount_eq_countP, ← ih]
    by_cases hlt : a + n < bytes.size
    · rw [← Nat.add_assoc, Array.extract_succ_right (by omega) hlt, Array.foldl_push]
      simp [Array.getD, hlt]
    · have hsame : bytes.extract a (a + (n + 1)) = bytes.extract a (a + n) := by
        rw [Array.extract_eq_extract_right]
        omega
      have hnone : popCount (bytes.getD (a + n) 0) = 0 := by
        simp only [Array.getD, hlt, dite_false]
        decide
      rw [hsame, hnone, Nat.add_zero]

lemma range'_split (a b c : ℕ) (hab : a ≤ b) (hbc : b ≤ c) :
    List.range' a (c - a) = List.range' a (b - a) ++ List.range' b (c - b) := by
  obtain ⟨d, rfl⟩ := Nat.exists_eq_add_of_le hab
  rw [Nat.add_sub_cancel_left, List.range'_append_1]
  congr 1
  omega

/-- The set flags that the three phases find in a range are all that are set in it. -/
lemma countP_phases (m : Mask) {start stop first last : ℕ} (hle : start ≤ stop)
    (hfirst : first = min ((start + 7) / 8 * 8) stop)
    (hlast : last = first + (stop - first) / 8 * 8) :
    (List.range' start (first - start)).countP m.isValid
        + (m.bytes.extract (first / 8) (last / 8)).foldl (fun n b => n + popCount b) 0
        + (List.range' last (stop - last)).countP m.isValid
      = (List.range' start (stop - start)).countP m.isValid := by
  have hwhole : (m.bytes.extract (first / 8) (last / 8)).foldl (fun n b => n + popCount b) 0
      = (List.range' first (last - first)).countP m.isValid := by
    -- the phase starts at a byte boundary, unless the range ends before one
    obtain hbyte | hempty : first = 8 * (first / 8) ∨ last = first := by omega
    · have hlen : last - first = 8 * (last / 8 - first / 8) := by omega
      have hend : last / 8 = first / 8 + (last / 8 - first / 8) := by omega
      rw [hlen, funext (isValid_eq_bitOf m), hend, sum_popCount, Nat.add_sub_cancel_left, ← hbyte]
    · simp [hempty]
  rw [hwhole, range'_split start first stop (by omega) (by omega),
    range'_split first last stop (by omega) (by omega), List.countP_append, List.countP_append,
    Nat.add_assoc]

/-- The flags of a range are set or clear. -/
lemma countP_add_countP_not (m : Mask) (start stop : ℕ) :
    (List.range' start (stop - start)).countP m.isValid
      + (List.range' start (stop - start)).countP (fun i => !m.isValid i) = stop - start := by
  have hlength := List.length_eq_countP_add_countP m.isValid
    (l := List.range' start (stop - start))
  simpa [List.length_range'] using hlength.symm

/-- The number of nulls in a range is the number of clear flags in it. -/
theorem nullCountIn_eq_countP (m : Mask) (start stop : ℕ) :
    m.nullCountIn start stop
      = (List.range' start (stop - start)).countP fun i => !m.isValid i := by
  rw [nullCountIn]
  split_ifs with h
  · simp [Nat.sub_eq_zero_of_le h]
  · have hflags := countP_add_countP_not m start stop
    simp only
    rw [countP_phases m (Nat.le_of_not_le h) rfl rfl]
    omega

/-- The number of nulls of a mask is the number of its clear flags. -/
lemma nullCount_eq_countP (m : Mask) :
    m.nullCount = (List.range m.len).countP fun i => !m.isValid i := by
  rw [nullCount, nullCountIn_eq_countP, List.range_eq_range', Nat.sub_zero]

/-! ### Adjacent ranges -/

/-- The nulls of adjacent ranges add up. -/
lemma nullCountIn_add (m : Mask) {a b c : ℕ} (hab : a ≤ b) (hbc : b ≤ c) :
    m.nullCountIn a b + m.nullCountIn b c = m.nullCountIn a c := by
  rw [nullCountIn_eq_countP, nullCountIn_eq_countP, nullCountIn_eq_countP,
    range'_split a b c hab hbc, List.countP_append]

/-- A mask that is cut keeps the nulls of the flags it keeps. -/
lemma WellFormed.nullCount_truncate {m : Mask} (h : m.WellFormed) {len : ℕ} (hlen : len ≤ m.len) :
    (m.truncate len).nullCount = m.nullCountIn 0 len := by
  rw [nullCount_eq_countP, len_truncate, min_eq_left hlen, nullCountIn_eq_countP, Nat.sub_zero,
    ← List.range_eq_range']
  refine List.countP_congr fun i hi => ?_
  have hi : i < len := List.mem_range.1 hi
  rw [isValid_truncate h, decide_eq_true hi, Bool.true_and]

end Mask

end Columnar
