import Columnar.Proofs.Chunk.Guarded
import Columnar.Proofs.Mask.History
/-!
# Counting nulls within bounds

The nulls of a range are counted a second time, loop by loop: each flag is read at an index below
the length, whole bytes are taken from the bytes that are there, and no difference is below zero.
In a well-formed mask the guarded count of any range that ends by the length is the number of
indices in it at which a null is read.
-/

namespace Columnar.Mask

/-! ### The guarded count -/

/-- Read flag after flag, up to the end of the range or to the first index at which to halt. The
index that was reached is returned with the number of set flags, counted on from `valid`. -/
def scanFlags? (m : Mask) (halts : ℕ → Bool) (stop index valid : ℕ) : Option (ℕ × ℕ) :=
  if index < stop ∧ halts index = false then do
    let isValid ← m.read? index
    m.scanFlags? halts stop (index + 1) (valid + isValid.toNat)
  else some (index, valid)
termination_by stop - index

/-- The bytes from one number up to another. -/
def slice? (m : Mask) (first last : ℕ) : Option (Array UInt8) :=
  if first ≤ last ∧ last ≤ m.bytes.size then some (m.bytes.extract first last) else none

/-- The number of nulls in a range. -/
def scanNulls? (m : Mask) (start stop : ℕ) : Option ℕ :=
  if stop ≤ start then some 0
  else do
    let (first, before) ← m.scanFlags? (· % 8 == 0) stop start 0
    let last := first + (← sub? stop first) / 8 * 8
    let bytes ← m.slice? (first / 8) (last / 8)
    let whole := bytes.foldl (fun n b => n + popCount b) 0
    let (_, valid) ← m.scanFlags? (fun _ => false) stop last (before + whole)
    sub? (← sub? stop start) valid

/-! ### Within bounds -/

namespace WellFormed

variable {m : Mask} {start stop index : ℕ}

lemma scanFlags?_of_halts {halts : ℕ → Bool} (hhalts : index < stop → halts index = true)
    (valid : ℕ) : m.scanFlags? halts stop index valid = some (index, valid) := by
  rw [scanFlags?, if_neg]
  rintro ⟨hlt, hmore⟩
  rw [hhalts hlt] at hmore
  cases hmore

/-- One pass of the loop over single flags. -/
lemma scanFlags?_step (h : m.WellFormed) {halts : ℕ → Bool} (hlt : index < stop)
    (hstop : stop ≤ m.len) (hmore : halts index = false) (valid : ℕ) :
    m.scanFlags? halts stop index valid
      = m.scanFlags? halts stop (index + 1) (valid + (m.isValid index).toNat) := by
  rw [scanFlags?, if_pos ⟨hlt, hmore⟩, h.read?_eq (hlt.trans_le hstop)]
  rfl

lemma countP_isValid_range' (m : Mask) {index next : ℕ} (hlt : index < next) :
    (List.range' index (next - index)).countP m.isValid = (m.isValid index).toNat
      + (List.range' (index + 1) (next - (index + 1))).countP m.isValid := by
  have hcount : next - index = next - (index + 1) + 1 := by omega
  rw [hcount, List.range'_succ, List.countP_cons, Nat.add_comm]
  rcases m.isValid index with _ | _
  · rfl
  · rfl

/-- The loop over single flags reads no index that it should not, counts the set flags that it
passes, and halts where it should. -/
lemma exists_scanFlags? (h : m.WellFormed) (halts : ℕ → Bool) (hle : index ≤ stop)
    (hstop : stop ≤ m.len) (valid : ℕ) :
    ∃ next, m.scanFlags? halts stop index valid
        = some (next, valid + (List.range' index (next - index)).countP m.isValid) ∧
      index ≤ next ∧ next ≤ stop ∧ (next = stop ∨ halts next = true) ∧
      ∀ i, index ≤ i → i < next → halts i = false := by
  -- induction on the number of indices that are left
  induction hleft : stop - index generalizing index valid with
  | zero =>
    obtain rfl : index = stop := by omega
    refine ⟨index, ?_, le_rfl, le_rfl, Or.inl rfl, fun i hi hlt => by omega⟩
    rw [scanFlags?_of_halts fun hlt => absurd hlt (lt_irrefl _)]
    simp
  | succ left ih =>
    have hlt : index < stop := by omega
    rcases hhalts : halts index with _ | _
    · obtain ⟨next, hscan, hindex, hnext, hend, hpassed⟩ :=
        ih hlt (valid + (m.isValid index).toNat) (by omega)
      refine ⟨next, ?_, Nat.le_of_succ_le hindex, hnext, hend, fun i hi hbefore => ?_⟩
      · rw [h.scanFlags?_step hlt hstop hhalts, hscan, countP_isValid_range' m hindex,
          Nat.add_assoc]
      · rcases Nat.eq_or_lt_of_le hi with rfl | hlater
        · exact hhalts
        · exact hpassed i hlater hbefore
    · refine ⟨index, ?_, le_rfl, hle, Or.inr hhalts, fun i hi hbefore => by omega⟩
      rw [scanFlags?_of_halts fun _ => hhalts]
      simp

lemma slice?_eq (h : m.WellFormed) {first last : ℕ} (hle : first ≤ last)
    (hlast : 8 * last ≤ m.len) : m.slice? first last = some (m.bytes.extract first last) := by
  have hsize := h.size_bytes
  rw [byteCount] at hsize
  exact if_pos ⟨hle, by omega⟩

/-- A loop that halts at whole bytes stops at the first one from the start on, unless the range ends
before it. -/
lemma eq_min_of_halts {first : ℕ} (hstart : start ≤ first) (hfirst : first ≤ stop)
    (hend : first = stop ∨ (first % 8 == 0) = true)
    (hpassed : ∀ i, start ≤ i → i < first → (i % 8 == 0) = false) :
    first = min ((start + 7) / 8 * 8) stop := by
  have hboundary := hpassed (min ((start + 7) / 8 * 8) stop) (by omega)
  rw [beq_iff_eq] at hend
  rw [beq_eq_false_iff_ne] at hboundary
  omega

/-- No access of the guarded count is out of bounds. -/
theorem scanNulls?_eq (h : m.WellFormed) (hstop : stop ≤ m.len) :
    m.scanNulls? start stop = some (m.nullCountIn start stop) := by
  rw [scanNulls?]
  by_cases hempty : stop ≤ start
  · rw [if_pos hempty, nullCountIn, if_pos hempty]
  have hle : start ≤ stop := Nat.le_of_not_le hempty
  rw [if_neg hempty]
  obtain ⟨first, hbefore, hstart, hfirst, hend, hpassed⟩ :=
    h.exists_scanFlags? (· % 8 == 0) hle hstop 0
  have hboundary := eq_min_of_halts hstart hfirst hend hpassed
  generalize hlast : first + (stop - first) / 8 * 8 = last
  have hrest : last ≤ stop := by omega
  have hslice : m.slice? (first / 8) (last / 8) = some (m.bytes.extract (first / 8) (last / 8)) :=
    h.slice?_eq (by omega) (by omega)
  obtain ⟨next, hafter, -, -, hdone, -⟩ := h.exists_scanFlags? (fun _ => false) hrest hstop
    (0 + (List.range' start (first - start)).countP m.isValid
      + (m.bytes.extract (first / 8) (last / 8)).foldl (fun n b => n + popCount b) 0)
  obtain rfl : next = stop := hdone.resolve_right Bool.false_ne_true
  -- what is taken from the length of the range are the set flags of the three phases
  have hphases := countP_phases m hle hboundary hlast.symm
  have hflags := countP_add_countP_not m start next
  simp only [hbefore, sub?_eq_some hfirst, hlast, hslice, hafter, sub?_eq_some hle,
    Option.bind_eq_bind, Option.bind_some]
  rw [Nat.zero_add, hphases, sub?_eq_some (by omega), nullCountIn_eq_countP]
  exact congrArg some (by omega)

lemma isValid?_eq (h : m.WellFormed) (hindex : index < m.len) :
    m.isValid? index = some (m.isValid index) := if_pos (h.index_lt hindex)

/-- The nulls of a range are the indices in it at which the flag that is read is clear. -/
lemma nullCountIn_eq_card (h : m.WellFormed) (hstop : stop ≤ m.len) :
    m.nullCountIn start stop
      = {i ∈ Finset.Ico start stop | m.isValid? i = some false}.card := by
  have hcard : {i ∈ Finset.Ico start stop | m.isValid? i = some false}.card
      = (List.range' start (stop - start)).countP fun i => m.isValid? i = some false := by
    rw [Finset.card_def, Finset.filter_val, ← Multiset.countP_eq_card_filter]
    rfl
  rw [hcard, nullCountIn_eq_countP]
  refine List.countP_congr fun i hi => ?_
  rw [List.mem_range'_1] at hi
  rw [h.isValid?_eq (by omega)]
  simp

end WellFormed

/-! ### What counting comes to -/

/-- The nulls of every range of the mask are counted. -/
structure CountsNulls (m : Mask) : Prop where
  /-- The count stays within the bounds of the mask, for which it is enough that the range does. -/
  within : ∀ start stop, start ≤ stop → stop ≤ m.len →
    m.scanNulls? start stop = some (m.nullCountIn start stop) ∧
      m.nullCountIn? start stop = some (m.nullCountIn start stop)
  /-- It is the number of indices at which a null is read. -/
  exact : ∀ start stop, start ≤ stop → stop ≤ m.len →
    m.nullCountIn start stop = {i ∈ Finset.Ico start stop | m.isValid? i = some false}.card
  /-- The counts of adjacent ranges add up. -/
  additive : ∀ a b c, a ≤ b → b ≤ c → c ≤ m.len →
    m.nullCountIn a b + m.nullCountIn b c = m.nullCountIn a c
  /-- The nulls of a tail and those that are left when it is cut off are all nulls. -/
  cut : ∀ len ≤ m.len, m.nullCountIn len m.len + (m.truncate len).nullCount = m.nullCount

theorem WellFormed.countsNulls {m : Mask} (h : m.WellFormed) : m.CountsNulls where
  within start stop hle hstop := by
    have hbytes := h.countNulls?_eq hle hstop
    rw [countNulls?, if_pos ⟨hle, hstop⟩] at hbytes
    exact ⟨h.scanNulls?_eq hstop, hbytes⟩
  exact start stop _ hstop := h.nullCountIn_eq_card hstop
  additive a b c hab hbc _ := m.nullCountIn_add hab hbc
  cut len hlen := by
    rw [h.nullCount_truncate hlen, Nat.add_comm, nullCount]
    exact m.nullCountIn_add (Nat.zero_le len) hlen

end Columnar.Mask
