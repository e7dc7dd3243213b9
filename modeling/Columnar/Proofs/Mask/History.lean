import Columnar.Proofs.Mask.Flags
/-!
# Masks as packed lists of flags

A list of flags has one canonical packing: as many bytes as its flags take, the first flag in the
lowest bit of the first byte, and zeros after the last flag. A mask is made by some history of
operations. Run beside the same operations on a list of flags, every history whose operations stay
within their bounds leads to the packing of the list: each operation takes packings to packings,
and a history is a chain of operations, in which the second operand of an intersection has a
history of its own.
-/

namespace Columnar

namespace Mask

/-! ### The canonical packing -/

/-- The bytes that hold a list of flags, eight to a byte and the first in the lowest bit, with
zeros after the last flag. -/
def packedBytes (flags : List Bool) : Array UInt8 :=
  Array.ofFn fun j : Fin ((flags.length + 7) / 8) =>
    UInt8.ofNat (Nat.ofBits fun b : Fin 8 => flags.getD (8 * j + b) false)

/-- The mask of the packed bytes of a list of flags. -/
def pack (flags : List Bool) : Mask := ⟨packedBytes flags, flags.length⟩

@[simp] lemma len_pack (flags : List Bool) : (pack flags).len = flags.length := rfl

@[simp] lemma size_packedBytes (flags : List Bool) :
    (packedBytes flags).size = (flags.length + 7) / 8 := by
  simp [packedBytes]

/-- The bits of the packed bytes are the flags, and clear past them. -/
lemma bitOf_packedBytes (flags : List Bool) (i : ℕ) :
    bitOf (packedBytes flags) i = flags.getD i false := by
  have hb : i % 8 < 8 := Nat.mod_lt i (by decide)
  have hi : 8 * (i / 8) + i % 8 = i := by omega
  by_cases hj : i / 8 < (flags.length + 7) / 8
  · have hbyte : (packedBytes flags).getD (i / 8) 0
        = UInt8.ofNat (Nat.ofBits fun b : Fin 8 => flags.getD (8 * (i / 8) + b) false) := by
      simp [packedBytes, Array.getD_eq_getD_getElem?, hj]
    rw [bitOf, hbyte, UInt8.toBitVec_ofNat', BitVec.getLsbD_ofNat, Nat.testBit_ofBits_lt _ _ hb]
    simp only [hb, decide_true, Bool.true_and, hi]
  · have hpast : flags.length ≤ i := by omega
    rw [bitOf_of_size_le (by rw [size_packedBytes]; omega), List.getD_eq_default _ _ hpast]

lemma isValid_pack (flags : List Bool) (i : ℕ) :
    (pack flags).isValid i = flags.getD i false := by
  rw [isValid_eq_bitOf]
  exact bitOf_packedBytes flags i

lemma wellFormed_pack (flags : List Bool) : (pack flags).WellFormed := by
  refine ⟨size_packedBytes flags, fun i hi => ?_⟩
  rw [isValid_pack, List.getD_eq_default _ _ hi]

/-- A well-formed mask is the packing of its flags. -/
lemma WellFormed.eq_pack {m : Mask} (h : m.WellFormed) {flags : List Bool}
    (hlen : m.len = flags.length) (hflags : ∀ i < flags.length, m.isValid i = flags.getD i false) :
    m = pack flags := by
  refine h.ext (wellFormed_pack flags) hlen fun i hi => ?_
  rw [isValid_pack]
  exact hflags i (hlen ▸ hi)

lemma pack_injective : Function.Injective pack := by
  intro flags flags' h
  have hlen : flags.length = flags'.length := congrArg Mask.len h
  refine List.ext_getElem hlen fun i hi hi' => ?_
  have hbit := congrArg (fun m : Mask => m.isValid i) h
  simpa only [isValid_pack, List.getD_eq_getElem _ _ hi, List.getD_eq_getElem _ _ hi'] using hbit

/-! ### Every operation takes packings to packings -/

lemma empty_eq_pack : empty = pack [] :=
  wellFormed_empty.eq_pack rfl (by simp)

lemma push_pack (flags : List Bool) (valid : Bool) :
    (pack flags).push valid = pack (flags ++ [valid]) := by
  have h := wellFormed_pack flags
  refine (h.push valid).eq_pack (by simp) fun i hi => ?_
  rw [isValid_push h, isValid_pack, len_pack]
  by_cases hlast : i = flags.length
  · simp [hlast]
  · have hlt : i < flags.length := by
      rw [List.length_append, List.length_singleton] at hi
      omega
    rw [if_neg hlast, List.getD_append _ _ _ _ hlt]

/-- Pushing flag by flag packs a list. -/
lemma ofBits_eq_pack (flags : List Bool) : ofBits flags = pack flags := by
  have hpush : ∀ before, flags.foldl push (pack before) = pack (before ++ flags) := by
    induction flags with
    | nil => simp
    | cons valid flags ih =>
      intro before
      rw [List.foldl_cons, push_pack, ih, List.append_assoc, List.singleton_append]
  rw [ofBits, empty_eq_pack, hpush, List.nil_append]

lemma extend_pack (flags : List Bool) (valid : Bool) (count : ℕ) :
    (pack flags).extend valid count = pack (flags ++ List.replicate count valid) := by
  have h := wellFormed_pack flags
  refine (h.extend valid count).eq_pack (by simp) fun i hi => ?_
  rw [List.length_append, List.length_replicate] at hi
  rw [isValid_extend h, isValid_pack, len_pack]
  by_cases hold : i < flags.length
  · rw [if_neg (by omega), List.getD_append _ _ _ _ hold]
  · rw [if_pos ⟨by omega, hi⟩, List.getD_append_right _ _ _ _ (by omega),
      List.getD_replicate _ (by omega)]

lemma set_pack {flags : List Bool} {index : ℕ} (hindex : index < flags.length) (valid : Bool) :
    (pack flags).set index valid = pack (flags.set index valid) := by
  have h := wellFormed_pack flags
  refine (h.set hindex valid).eq_pack (by simp) fun i hi => ?_
  have hi' : i < flags.length := by simpa using hi
  rw [isValid_set h hindex, isValid_pack, List.getD_eq_getElem _ _ hi, List.getElem_set,
    List.getD_eq_getElem _ _ hi']
  exact if_congr eq_comm rfl rfl

lemma truncate_pack (flags : List Bool) (len : ℕ) :
    (pack flags).truncate len = pack (flags.take len) := by
  have h := wellFormed_pack flags
  refine (h.truncate len).eq_pack (by simp) fun i hi => ?_
  have hi' : i < len ∧ i < flags.length := by simpa using hi
  rw [isValid_truncate h, isValid_pack, List.getD_eq_getElem _ _ hi, List.getElem_take,
    List.getD_eq_getElem _ _ hi'.2]
  simp [hi'.1]

lemma and_pack {flags flags' : List Bool} (hlen : flags.length = flags'.length) :
    (pack flags).and (pack flags') = pack (List.zipWith (· && ·) flags flags') := by
  have h := wellFormed_pack flags
  have h' := wellFormed_pack flags'
  have hsize : (pack flags).bytes.size = (pack flags').bytes.size := by
    rw [h.size_bytes, h'.size_bytes, len_pack, len_pack, hlen]
  refine (h.and h' hlen).eq_pack (by simp [hlen]) fun i hi => ?_
  have hi' : i < flags.length ∧ i < flags'.length := by simpa using hi
  rw [isValid_and hsize, isValid_pack, isValid_pack, List.getD_eq_getElem _ _ hi,
    List.getElem_zipWith, List.getD_eq_getElem _ _ hi'.1, List.getD_eq_getElem _ _ hi'.2]

lemma allValidOfLen_eq_pack (len : ℕ) : allValidOfLen len = pack (List.replicate len true) := by
  rw [allValidOfLen, empty_eq_pack, extend_pack, List.nil_append]

lemma allNull_eq_pack (len : ℕ) : allNull len = pack (List.replicate len false) := by
  have hclear : ∀ i, (allNull len).isValid i = false := by
    intro i
    rw [isValid_eq_bitOf, bitOf, allNull, Array.getD_eq_getD_getElem?, Array.getElem?_replicate]
    split_ifs <;> simp
  have h : (allNull len).WellFormed := ⟨by simp [allNull], fun i _ => hclear i⟩
  refine h.eq_pack (by simp [allNull]) fun i hi => ?_
  rw [hclear, List.getD_replicate _ (by simpa using hi)]

/-- The first `len` bits of a byte string, the lowest bit of a byte first. -/
def leadingBits (bytes : Array UInt8) (len : ℕ) : List Bool :=
  (List.range len).map fun i => (bytes.getD (i / 8) 0).toNat.testBit (i % 8)

/-- Bytes are accepted if there are enough for the flags; what they hold past the flags, in the last
byte or in further bytes, is dropped. -/
lemma ofBytes?_eq_pack {bytes : Array UInt8} {len : ℕ} (hlen : len ≤ 8 * bytes.size) :
    ofBytes? bytes len = some (pack (leadingBits bytes len)) := by
  have hcount : byteCount len ≤ bytes.size := by
    rw [byteCount]
    omega
  have htake : (bytes.take (byteCount len)).size = byteCount len := by
    rw [Array.take_eq_extract, Array.size_extract]
    omega
  rw [ofBytes?, if_pos hcount]
  have hbits : ∀ i, isValid ⟨clearTail (bytes.take (byteCount len)) len, len⟩ i
      = (decide (i < len) && bitOf bytes i) := by
    intro i
    rw [isValid_eq_bitOf, bitOf_clearTail htake, bitOf_take]
    by_cases hi : i < len
    · have : i / 8 < byteCount len := by
        rw [byteCount]
        omega
      simp [hi, this]
    · simp [hi]
  have h : WellFormed ⟨clearTail (bytes.take (byteCount len)) len, len⟩ := by
    refine ⟨by rw [size_clearTail, htake], fun i hi => ?_⟩
    have hi' : ¬ i < len := Nat.not_lt.2 hi
    rw [hbits, decide_eq_false hi', Bool.false_and]
  refine congrArg some (h.eq_pack (by simp [leadingBits]) fun i hi => ?_)
  have hi' : i < len := by simpa [leadingBits] using hi
  rw [hbits, List.getD_eq_getElem _ _ hi, decide_eq_true hi', Bool.true_and]
  simp [leadingBits, bitOf, BitVec.getLsbD]

/-! ### Histories -/

/-- The ways of making a mask. -/
inductive History
  /-- The empty mask. -/
  | new
  | allValid (len : ℕ)
  | allNull (len : ℕ)
  /-- The first flags of packed bytes. -/
  | ofBytes (bytes : Array UInt8) (len : ℕ)
  | reserve (h : History) (additional : ℕ)
  | push (h : History) (valid : Bool)
  /-- Further copies of one flag. -/
  | extend (h : History) (valid : Bool) (count : ℕ)
  | set (h : History) (index : ℕ) (valid : Bool)
  | truncate (h : History) (len : ℕ)
  /-- The intersection with a mask that has a history of its own. -/
  | and (h h' : History)

namespace History

/-- The mask that a history leads to, unless it touches bytes that are not there. -/
def run : History → Option Mask
  | new => some empty
  | allValid len => some (allValidOfLen len)
  | allNull len => some (Mask.allNull len)
  | ofBytes bytes len => ofBytes? bytes len
  | reserve h additional => h.run.map (·.reserve additional)
  | push h valid => h.run.map (·.push valid)
  | extend h valid count => h.run.map (·.extend valid count)
  | set h index valid => h.run.bind fun m => (m.set? index valid).map Prod.snd
  | truncate h len => h.run.map (·.truncate len)
  | and h h' => h.run.bind fun m => h'.run.map m.and

/-- The list that the same operations lead to when they work on lists of flags. -/
def flags : History → List Bool
  | new => []
  | allValid len => List.replicate len true
  | allNull len => List.replicate len false
  | ofBytes bytes len => leadingBits bytes len
  | reserve h _ => h.flags
  | push h valid => h.flags ++ [valid]
  | extend h valid count => h.flags ++ List.replicate count valid
  | set h index valid => h.flags.set index valid
  | truncate h len => h.flags.take len
  | and h h' => List.zipWith (· && ·) h.flags h'.flags

/-- Every operation of a history stays within its bounds: there are bytes for all flags that are
read from bytes, a flag is set below the length, and the masks of an intersection are equally
long. -/
def InBounds : History → Prop
  | new | allValid _ | allNull _ => True
  | ofBytes bytes len => len ≤ 8 * bytes.size
  | reserve h _ | push h _ | extend h _ _ | truncate h _ => h.InBounds
  | set h index _ => h.InBounds ∧ index < h.flags.length
  | and h h' => h.InBounds ∧ h'.InBounds ∧ h.flags.length = h'.flags.length

/-- Whether a history stays within its bounds is decided step by step. -/
instance decidableInBounds : (h : History) → Decidable h.InBounds
  | new | allValid _ | allNull _ => .isTrue trivial
  | ofBytes bytes len => inferInstanceAs (Decidable (len ≤ 8 * bytes.size))
  | reserve h _ | push h _ | extend h _ _ | truncate h _ => decidableInBounds h
  | set h index _ =>
    have := decidableInBounds h
    inferInstanceAs (Decidable (h.InBounds ∧ index < h.flags.length))
  | and h h' =>
    have := decidableInBounds h
    have := decidableInBounds h'
    inferInstanceAs (Decidable (h.InBounds ∧ h'.InBounds ∧ h.flags.length = h'.flags.length))

end History

/-- An index below the length has a byte, so that the flag there can be changed; the flag it had is
returned. -/
lemma set?_pack {flags : List Bool} {index : ℕ} (hindex : index < flags.length) (valid : Bool) :
    (pack flags).set? index valid = some (flags[index], pack (flags.set index valid)) := by
  have hbyte := (wellFormed_pack flags).index_lt hindex
  rw [set?, if_pos hbyte, isValid_pack, List.getD_eq_getElem _ _ hindex, set_pack hindex]

lemma isValid?_pack {flags : List Bool} {index : ℕ} (hindex : index < flags.length) :
    (pack flags).isValid? index = some flags[index] := by
  have hbyte := (wellFormed_pack flags).index_lt hindex
  rw [isValid?, if_pos hbyte, isValid_pack, List.getD_eq_getElem _ _ hindex]

namespace History

/-- A history within its bounds leads to the packing of its list of flags. -/
lemma run_eq_pack {h : History} (hin : h.InBounds) : h.run = some (pack h.flags) := by
  induction h with
  | new => rw [run, flags, empty_eq_pack]
  | allValid len => rw [run, flags, allValidOfLen_eq_pack]
  | allNull len => rw [run, flags, allNull_eq_pack]
  | ofBytes bytes len => rw [run, flags, ofBytes?_eq_pack hin]
  | reserve h additional ih => rw [run, flags, ih hin, Option.map_some, Mask.reserve]
  | push h valid ih => rw [run, flags, ih hin, Option.map_some, push_pack]
  | extend h valid count ih => rw [run, flags, ih hin, Option.map_some, extend_pack]
  | set h index valid ih =>
    obtain ⟨hin, hindex⟩ := hin
    rw [run, flags, ih hin, Option.bind_some, set?_pack hindex, Option.map_some]
  | truncate h len ih => rw [run, flags, ih hin, Option.map_some, truncate_pack]
  | and h h' ih ih' =>
    obtain ⟨hin, hin', hlen⟩ := hin
    rw [run, flags, ih hin, ih' hin', Option.bind_some, Option.map_some, and_pack hlen]

/-- **A mask is a packed list of flags.** A history within its bounds touches no byte that is not
there, and leads to a mask as long as the list that the same operations make, with the canonical
packing of this list as its bytes: just as many bytes as the flags take, with zeros after the last
flag. The flag read at an index is the element of the list; to set a flag returns the element it
had. Two masks are equal exactly if their lists are. -/
theorem run_faithful (h : History) (hin : h.InBounds) :
    ∃ m, h.run = some m ∧ m.len = h.flags.length ∧
      m.bytes = packedBytes h.flags ∧ m.bytes.size = (m.len + 7) / 8 ∧
      (∀ i, m.len ≤ i → (m.bytes.getD (i / 8) 0).toNat.testBit (i % 8) = false) ∧
      (∀ i (hi : i < h.flags.length),
        m.isValid? i = some h.flags[i] ∧
        ∀ valid, (m.set? i valid).map Prod.fst = some h.flags[i]) ∧
      ∀ h' : History, h'.InBounds → ∀ m', h'.run = some m' → (m = m' ↔ h.flags = h'.flags) := by
  refine ⟨pack h.flags, run_eq_pack hin, rfl, rfl, size_packedBytes _, fun i hi => ?_,
    fun i hi => ⟨isValid?_pack hi, fun valid => ?_⟩, fun h' hin' m' hm' => ?_⟩
  · have hclear := (wellFormed_pack h.flags).tail_clear i hi
    rw [isValid_eq_bitOf] at hclear
    exact hclear
  · rw [set?_pack hi, Option.map_some]
  · obtain rfl : pack h'.flags = m' := Option.some.inj ((run_eq_pack hin').symm.trans hm')
    exact pack_injective.eq_iff

/-- Flags are added in bulk across a byte, one of them is cleared, the mask is cut back into its
second byte and pushed to, and what is left is intersected with the flags of two bytes. -/
theorem run_faithful_cut_and_grown :
    let h : History :=
      .and (.push (.truncate (.set (.extend (.push .new false) true 12) 3 false) 10) true)
        (.ofBytes #[0xF7, 0xFD] 11)
    ∃ m, h.run = some m ∧ m.len = h.flags.length ∧
      m.bytes = packedBytes h.flags ∧ m.bytes.size = (m.len + 7) / 8 ∧
      (∀ i, m.len ≤ i → (m.bytes.getD (i / 8) 0).toNat.testBit (i % 8) = false) ∧
      (∀ i (hi : i < h.flags.length),
        m.isValid? i = some h.flags[i] ∧
        ∀ valid, (m.set? i valid).map Prod.fst = some h.flags[i]) ∧
      ∀ h' : History, h'.InBounds → ∀ m', h'.run = some m' → (m = m' ↔ h.flags = h'.flags) :=
  run_faithful _ (by decide)

end History

end Mask

end Columnar
