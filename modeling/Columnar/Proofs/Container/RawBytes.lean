import Columnar.Proofs.Container.Derived
import Columnar.Proofs.Element.Bytes
import Columnar.Proofs.Element.Integer
import Columnar.Proofs.Mask.Flags
import Columnar.Container.Builder
/-!
# Importing raw bytes

Rows are imported from a string of bytes and, perhaps, a bitmap. Three sequences are walked side by
side: the bytes in steps of the width of the kind, the bits one by one and the rows in chunks. If
the strings are long enough, the row with number `i` is the word at byte `i * width`, unless the
bitmap has a clear bit with this number, and nothing else is read. Otherwise the import is refused,
and it is the bytes that are measured first.
-/

namespace Columnar

/-! ### Words in a string of bytes -/

/-- The number that `width` bytes denote, the first of them the least significant, in a string of
such numbers at an index. -/
def wordAt (width : ℕ) (values : Array UInt8) (i : ℕ) : ℕ :=
  ∑ j ∈ Finset.range width, (values.getD (i * width + j) 0).toNat * 256 ^ j

lemma LittleEndian.decode_eq_sum (bytes : List UInt8) :
    decode bytes = ∑ j ∈ Finset.range bytes.length, (bytes.getD j 0).toNat * 256 ^ j := by
  induction bytes with
  | nil => rfl
  | cons b bytes ih =>
    rw [decode, List.length_cons, Finset.sum_range_succ', ih, Finset.mul_sum, Nat.add_comm]
    congr 1
    · refine Finset.sum_congr rfl fun j _ => ?_
      rw [List.getD_cons_succ, pow_succ]
      ring
    · simp

/-- A slice of the width of a word is read as the word at its index. -/
lemma decode_extract {width : ℕ} {values : Array UInt8} {i : ℕ}
    (h : (i + 1) * width ≤ values.size) :
    LittleEndian.decode (values.extract (i * width) ((i + 1) * width)).toList
      = wordAt width values i := by
  have hwidth : (i + 1) * width - i * width = width := by
    rw [Nat.add_mul, Nat.one_mul, Nat.add_sub_cancel_left]
  have hlength : (values.extract (i * width) ((i + 1) * width)).toList.length = width := by
    rw [Array.length_toList, Array.size_extract, Nat.min_eq_left h, hwidth]
  rw [LittleEndian.decode_eq_sum, hlength, wordAt]
  refine Finset.sum_congr rfl fun j hj => ?_
  rw [Finset.mem_range] at hj
  have hget : (values.extract (i * width) ((i + 1) * width)).toList.getD j 0
      = values.getD (i * width + j) 0 := by
    rw [List.getD_eq_getElem?_getD, Array.getElem?_toList, Array.getElem?_extract,
      if_pos (by rw [Nat.min_eq_left h, hwidth]; exact hj), Array.getD_eq_getD_getElem?]
  rw [hget]

namespace Container

variable {k : Kind} {values values' : Array UInt8} {validity validity' : Option (Array UInt8)}
  {len i : ℕ}

/-! ### Rows in the bytes -/

/-- Whether row `i` holds a value: if there is a bitmap, its bit says so. -/
def hasValue (validity : Option (Array UInt8)) (i : ℕ) : Bool := validity.all (Mask.bitOf · i)

/-- Row `i` according to the bytes and the bitmap. -/
def rawRow (k : Kind) (values : Array UInt8) (validity : Option (Array UInt8)) (i : ℕ) : Cell k :=
  if hasValue validity i then some (k.element.ofWord (wordAt k.width values i)) else none

/-- The bytes are long enough for `len` rows, and so is the bitmap, if there is one. -/
structure Suffices (k : Kind) (values : Array UInt8) (validity : Option (Array UInt8)) (len : ℕ) :
    Prop where
  values_le : len * k.width ≤ values.size
  bitmap_le : ∀ bitmap, validity = some bitmap → (len + 7) / 8 ≤ bitmap.size

namespace Suffices

/-- The bytes of every row, and its bit, are there. -/
lemma row_le (h : Suffices k values validity len) (hi : i < len) :
    (i + 1) * k.width ≤ values.size :=
  (Nat.mul_le_mul_right _ hi).trans h.values_le

lemma bit_lt (h : Suffices k values validity len) (hi : i < len) {bitmap : Array UInt8}
    (hbitmap : validity = some bitmap) : i / 8 < bitmap.size := by
  have := h.bitmap_le bitmap hbitmap
  omega

/-- A row with a value is decoded from a slice of the width of the kind. -/
lemma rawRow_eq (h : Suffices k values validity len) (hi : i < len) :
    rawRow k values validity i = if hasValue validity i then
      some (Kind.Value.ofBytes k (values.extract (i * k.width) ((i + 1) * k.width)).toList)
    else none := by
  rw [Kind.Value.ofBytes, decode_extract (h.row_le hi)]
  rfl

/-- What is long enough is imported as its rows. -/
theorem ofRawBytes_eq (h : Suffices k values validity len) (o : Options) :
    ofRawBytes values validity len o
      = ofRows ((List.range len).map (rawRow k values validity)) o := by
  have hvalues : ¬ values.size < min (len * k.width) (UInt64.size - 1) := by
    have := h.values_le
    omega
  rw [List.map_congr_left fun i hi => h.rawRow_eq (List.mem_range.1 hi)]
  rcases validity with _ | bitmap
  · simp only [ofRawBytes, if_neg hvalues]
    rfl
  · have hbitmap : ¬ bitmap.size < Mask.byteCount len := Nat.not_lt.2 (h.bitmap_le bitmap rfl)
    simp only [ofRawBytes, if_neg hvalues, if_neg hbitmap, hasValue, Option.all_some,
      Mask.isValid_eq_bitOf]
    rfl

/-- Nothing is read but the bits of the rows and the bytes of those that have a value. -/
lemma ofRawBytes_congr (h : Suffices k values validity len) (h' : Suffices k values' validity' len)
    (hbits : ∀ i < len, hasValue validity' i = hasValue validity i)
    (hbytes : ∀ i < len, hasValue validity i →
      ∀ j < k.width, values'.getD (i * k.width + j) 0 = values.getD (i * k.width + j) 0)
    (o : Options) : (ofRawBytes values' validity' len o : Traced (Container k))
      = ofRawBytes values validity len o := by
  rw [h.ofRawBytes_eq, h'.ofRawBytes_eq]
  congr 1
  refine List.map_congr_left fun i hi => ?_
  rw [List.mem_range] at hi
  rw [rawRow, rawRow, hbits i hi]
  split_ifs with hvalue
  · have hword : wordAt k.width values' i = wordAt k.width values i :=
      Finset.sum_congr rfl fun j hj => by rw [hbytes i hi hvalue j (Finset.mem_range.1 hj)]
    rw [hword]
  · rfl

end Suffices

/-! ### Refusals -/

/-- Strings suffice unless one of them is too short. -/
lemma not_suffices_iff : ¬ Suffices k values validity len ↔ values.size < len * k.width ∨
    ∃ bitmap, validity = some bitmap ∧ bitmap.size < (len + 7) / 8 := by
  constructor
  · intro h
    by_contra hlong
    rw [not_or, not_exists] at hlong
    exact h ⟨Nat.not_lt.1 hlong.1, fun bitmap hbitmap =>
      Nat.not_lt.1 fun hlt => hlong.2 bitmap ⟨hbitmap, hlt⟩⟩
  · rintro (hlt | ⟨bitmap, hbitmap, hlt⟩) h
    · exact hlt.not_ge h.values_le
    · exact hlt.not_ge (h.bitmap_le bitmap hbitmap)

/-- Bytes that are too short are refused, also if the number that are needed is no machine word. -/
lemma ofRawBytes_of_values_lt (hsize : values.size < UInt64.size - 1)
    (hlt : values.size < len * k.width) (o : Options) :
    (ofRawBytes values validity len o : Traced (Container k)).result
      = .error (.bufferTooShort (min (len * k.width) (UInt64.size - 1)) values.size) := by
  simp only [ofRawBytes, if_pos (lt_min hlt hsize)]
  rfl

lemma ofRawBytes_of_bitmap_lt {bitmap : Array UInt8} (hle : len * k.width ≤ values.size)
    (hlt : bitmap.size < (len + 7) / 8) (o : Options) :
    (ofRawBytes values (some bitmap) len o : Traced (Container k)).result
      = .error (.bufferTooShort ((len + 7) / 8) bitmap.size) := by
  have hvalues : ¬ values.size < min (len * k.width) (UInt64.size - 1) := by omega
  have hbitmap : bitmap.size < Mask.byteCount len := hlt
  simp only [ofRawBytes, if_neg hvalues, if_pos hbitmap]
  rfl

/-- What is not long enough is refused, and the bytes are measured first. -/
lemma exists_refused (hsize : values.size < UInt64.size - 1) (h : ¬ Suffices k values validity len)
    (o : Options) : ∃ expected actual,
      (ofRawBytes values validity len o : Traced (Container k)).result
        = .error (.bufferTooShort expected actual) := by
  by_cases hlt : values.size < len * k.width
  · exact ⟨_, _, ofRawBytes_of_values_lt hsize hlt o⟩
  · obtain ⟨bitmap, rfl, hshort⟩ := (not_suffices_iff.1 h).resolve_left hlt
    exact ⟨_, _, ofRawBytes_of_bitmap_lt (Nat.not_lt.1 hlt) hshort o⟩

/-! ### What an import gives -/

/-- What an import of `len` rows from raw bytes gives. -/
structure ImportsRaw (k : Kind) (values : Array UInt8) (validity : Option (Array UInt8)) (len : ℕ)
    (o : Options) : Prop where
  /-- The import is refused exactly if one of the strings is too short. -/
  refused_iff : (∃ expected actual, (ofRawBytes values validity len o : Traced (Container k)).result
      = .error (.bufferTooShort expected actual)) ↔
    values.size < len * k.width ∨ ∃ bitmap, validity = some bitmap ∧ bitmap.size < (len + 7) / 8
  /-- The bytes come first. The number of bytes that are named does not go past the largest machine
  word. -/
  values_refused : values.size < len * k.width →
    (ofRawBytes values validity len o : Traced (Container k)).result
      = .error (.bufferTooShort (min (len * k.width) (UInt64.size - 1)) values.size)
  bitmap_refused : len * k.width ≤ values.size → ∀ bitmap, validity = some bitmap →
    bitmap.size < (len + 7) / 8 → (ofRawBytes values validity len o : Traced (Container k)).result
      = .error (.bufferTooShort ((len + 7) / 8) bitmap.size)
  /-- Otherwise there are `len` rows, which can be read one by one. -/
  imported : Suffices k values validity len → ∃ c : Container k,
    (ofRawBytes values validity len o).result = .ok c ∧ c.options = o ∧ c.len = len ∧
      c.rows = (List.range len).map (rawRow k values validity) ∧
      ∀ i < len, c.get i = .ok (rawRow k values validity i)
  /-- A row that is not null is read back from the bytes that its value has. -/
  restored : Suffices k values validity len → ∀ i < len, hasValue validity i →
    ∀ v : k.Value, (values.extract (i * k.width) ((i + 1) * k.width)).toList = v.toBytes →
      rawRow k values validity i = some v
  /-- An integer is the number that its bytes denote, read with a sign if the kind has one. -/
  integers : k.support = .integral → ∀ i (v : k.Value), rawRow k values validity i = some v →
    Kind.Value.key v = k.wrap (wordAt k.width values i)
  /-- The bytes and the bit of every row are there. -/
  in_bounds : Suffices k values validity len → ∀ i < len, (i + 1) * k.width ≤ values.size ∧
    ∀ bitmap, validity = some bitmap → i / 8 < bitmap.size
  /-- Further bytes and further bits are without influence: an import from strings that agree in
  the bits of the rows, and in the bytes of those that are not null, gives and reports the same. -/
  unread : Suffices k values validity len → ∀ values' validity',
    Suffices k values' validity' len →
    (∀ i < len, hasValue validity' i = hasValue validity i) →
    (∀ i < len, hasValue validity i →
      ∀ j < k.width, values'.getD (i * k.width + j) 0 = values.getD (i * k.width + j) 0) →
    (ofRawBytes values' validity' len o : Traced (Container k)) = ofRawBytes values validity len o

/-- The rows of an import are those in the bytes. -/
lemma Suffices.exists_imported (h : Suffices k values validity len) (o : Options) :
    ∃ c : Container k, (ofRawBytes values validity len o).result = .ok c ∧ c.options = o ∧
      c.len = len ∧ c.rows = (List.range len).map (rawRow k values validity) ∧
      ∀ i < len, c.get i = .ok (rawRow k values validity i) := by
  obtain ⟨c, hc, hholds⟩ := refines_ofRows ((List.range len).map (rawRow k values validity)) o
  refine ⟨c, ?_, hholds.options_eq, ?_, hholds.rows_eq, fun i hi => ?_⟩
  · rw [h.ofRawBytes_eq]
    exact hc
  · rw [hholds.len_eq, List.length_map, List.length_range]
  · rw [hholds.get_eq_ok_iff, List.getElem?_map, List.getElem?_range hi]
    rfl

lemma Suffices.rawRow_of_bytes (h : Suffices k values validity len) (hi : i < len)
    (hvalue : hasValue validity i) {v : k.Value}
    (hbytes : (values.extract (i * k.width) ((i + 1) * k.width)).toList = v.toBytes) :
    rawRow k values validity i = some v := by
  rw [h.rawRow_eq hi, if_pos hvalue, hbytes, v.ofBytes_toBytes]

lemma key_of_rawRow (hk : k.support = .integral) {v : k.Value}
    (hv : rawRow k values validity i = some v) :
    Kind.Value.key v = k.wrap (wordAt k.width values i) := by
  rw [rawRow] at hv
  split_ifs at hv
  rw [← Option.some.inj hv]
  exact Kind.key_ofWord hk _

/-- **An import of raw bytes accepts exactly what it can decode**, whatever the number of rows that
is asked for, and decodes these rows and nothing else. The bytes are as many as can be addressed. -/
theorem importsRaw (validity : Option (Array UInt8)) (len : ℕ) (o : Options)
    (hsize : values.size < UInt64.size - 1) : ImportsRaw k values validity len o where
  refused_iff := by
    rw [← not_suffices_iff]
    constructor
    · rintro ⟨expected, actual, hrefused⟩ h
      obtain ⟨c, hc, -⟩ := h.exists_imported o
      cases hc.symm.trans hrefused
    · exact fun h => exists_refused hsize h o
  values_refused hlt := ofRawBytes_of_values_lt hsize hlt o
  bitmap_refused hle bitmap hbitmap hlt := by
    subst hbitmap
    exact ofRawBytes_of_bitmap_lt hle hlt o
  imported h := h.exists_imported o
  restored h i hi hvalue v hbytes := h.rawRow_of_bytes hi hvalue hbytes
  integers hk _ _ hv := key_of_rawRow hk hv
  in_bounds h i hi := ⟨h.row_le hi, fun _ => h.bit_lt hi⟩
  unread h values' validity' h' hbits hbytes := h.ofRawBytes_congr h' hbits hbytes o

/-- Three rows of two bytes, the second of them null, with a byte and bits to spare. -/
theorem importsRaw_of_three_rows : (#[1, 0, 2, 0, 3, 128, 9] : Array UInt8).size < UInt64.size - 1 ∧
    ImportsRaw .int16 #[1, 0, 2, 0, 3, 128, 9] (some #[0xed]) 3 {} :=
  ⟨by decide, importsRaw (some #[0xed]) 3 {} (by decide)⟩

end Container

end Columnar
