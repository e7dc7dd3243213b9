import Columnar.Proofs.Chunk.Operations
/-!
# How slots are cut into chunks

A list of chunks is packed when all of them but the last hold as many rows as the capacity allows
and the last holds at least one. The sizes of the chunks are then a function of the number of rows
(`chunkSizes`), so that packed chunks are determined by their slots, and the slot with number `i`
is found in chunk `i / cap` at offset `i % cap`.

Rows are added in two steps: a chunk with room is provided, which may be empty (`Opened`), and then
at least one row is added to it.
-/

namespace Columnar

variable {k : Kind} {cap : ℕ}

/-- The sizes of the chunks that hold `n` rows: full ones, and one for what is left over. -/
def chunkSizes (cap n : ℕ) : List ℕ :=
  List.replicate (n / cap) cap ++ if n % cap = 0 then [] else [n % cap]

@[simp] lemma chunkSizes_zero (cap : ℕ) : chunkSizes cap 0 = [] := by
  simp [chunkSizes]

/-- The sizes when the last chunk has `r` rows, which may be all that fit. -/
lemma chunkSizes_add (q : ℕ) {r : ℕ} (hr : 0 < r) (hle : r ≤ cap) :
    chunkSizes cap (q * cap + r) = List.replicate q cap ++ [r] := by
  have hcap : 0 < cap := by omega
  -- a full last chunk is one of the `n / cap` full ones
  rcases Nat.lt_or_eq_of_le hle with hlt | rfl
  · have hdiv : (q * cap + r) / cap = q :=
      Nat.div_eq_of_lt_le (by omega) (by rw [Nat.succ_mul]; omega)
    have hmod : (q * cap + r) % cap = r := by
      rw [Nat.mul_add_mod_self_right, Nat.mod_eq_of_lt hlt]
    rw [chunkSizes, hdiv, hmod, if_neg (by omega)]
  · have heq : q * r + r = (q + 1) * r := by ring
    rw [chunkSizes, heq, Nat.mul_div_cancel _ hcap, Nat.mul_mod_left, if_pos rfl,
      List.append_nil, List.replicate_succ']

/-- Every positive number of rows has a last chunk. -/
lemma exists_eq_mul_add (hcap : 0 < cap) {n : ℕ} (hn : 0 < n) :
    ∃ q r, 0 < r ∧ r ≤ cap ∧ n = q * cap + r := by
  have h := Nat.div_add_mod (n - 1) cap
  have hlt := Nat.mod_lt (n - 1) hcap
  refine ⟨(n - 1) / cap, (n - 1) % cap + 1, by omega, by omega, ?_⟩
  rw [Nat.mul_comm] at h
  omega

@[simp] lemma sum_chunkSizes (hcap : 0 < cap) (n : ℕ) : (chunkSizes cap n).sum = n := by
  rcases Nat.eq_zero_or_pos n with rfl | hn
  · simp
  · obtain ⟨q, r, hr, hle, rfl⟩ := exists_eq_mul_add hcap hn
    simp [chunkSizes_add q hr hle]

/-- The number of chunks when the last one has `r` rows. -/
lemma ceil_div (q : ℕ) {r : ℕ} (hr : 0 < r) (hle : r ≤ cap) :
    (q * cap + r + cap - 1) / cap = q + 1 :=
  Nat.div_eq_of_lt_le (by rw [Nat.succ_mul]; omega) (by rw [Nat.succ_mul, Nat.succ_mul]; omega)

/-- There are as many chunks as the capacity goes into the number of rows, rounded up. -/
lemma length_chunkSizes (hcap : 0 < cap) (n : ℕ) :
    (chunkSizes cap n).length = (n + cap - 1) / cap := by
  rcases Nat.eq_zero_or_pos n with rfl | hn
  · rw [chunkSizes_zero, Nat.div_eq_of_lt (by omega), List.length_nil]
  · obtain ⟨q, r, hr, hle, rfl⟩ := exists_eq_mul_add hcap hn
    rw [chunkSizes_add q hr hle, ceil_div q hr hle]
    simp

/-! ### Packed chunks -/

/-- Chunks that hold the slots `s`, all full but the last. -/
structure Packed (cap : ℕ) (chunks : List (Chunk k)) (s : List (Slot k)) : Prop where
  flatMap_slots : chunks.flatMap Chunk.slots = s
  map_len : chunks.map Chunk.len = chunkSizes cap s.length
  wellFormed : ∀ c ∈ chunks, c.WellFormed cap

/-- Full chunks and one with room, perhaps without rows, that hold the slots `s`. -/
structure Opened (cap : ℕ) (full : List (Chunk k)) (last : Chunk k) (s : List (Slot k)) :
    Prop where
  slots : full.flatMap Chunk.slots ++ last.slots = s
  full_len : ∀ c ∈ full, c.len = cap
  full_wellFormed : ∀ c ∈ full, c.WellFormed cap
  last_wellFormed : last.WellFormed cap
  last_lt : last.len < cap

lemma packed_nil (cap : ℕ) : Packed cap ([] : List (Chunk k)) [] :=
  ⟨rfl, by simp, by simp⟩

lemma length_flatMap_slots (chunks : List (Chunk k)) :
    (chunks.flatMap Chunk.slots).length = (chunks.map Chunk.len).sum := by
  simp [List.length_flatMap]

lemma map_len_eq_replicate {full : List (Chunk k)} (h : ∀ c ∈ full, c.len = cap) :
    full.map Chunk.len = List.replicate full.length cap := by
  rw [List.eq_replicate_iff]
  refine ⟨by simp, fun n hn => ?_⟩
  obtain ⟨c, hc, rfl⟩ := List.mem_map.1 hn
  exact h c hc

/-- Full chunks followed by one that has at least a row are packed. -/
lemma packed_concat {full : List (Chunk k)} {last : Chunk k} (hlen : ∀ c ∈ full, c.len = cap)
    (hfull : ∀ c ∈ full, c.WellFormed cap) (hlast : last.WellFormed cap) (hpos : 0 < last.len) :
    Packed cap (full ++ [last]) (full.flatMap Chunk.slots ++ last.slots) := by
  refine ⟨by simp, ?_, ?_⟩
  · rw [List.length_append, length_flatMap_slots, map_len_eq_replicate hlen, List.sum_replicate,
      Chunk.length_slots, smul_eq_mul, chunkSizes_add _ hpos hlast.len_le, List.map_append,
      map_len_eq_replicate hlen]
    rfl
  · intro c hc
    rcases List.mem_append.1 hc with hc | hc
    · exact hfull c hc
    · rw [List.mem_singleton.1 hc]
      exact hlast

/-- Adding rows to the chunk with room makes the chunks packed. -/
lemma Opened.close {full : List (Chunk k)} {last d : Chunk k} {s t : List (Slot k)}
    (h : Opened cap full last s) (hd : d.WellFormed cap) (hslots : d.slots = last.slots ++ t)
    (ht : t ≠ []) : Packed cap (full ++ [d]) (s ++ t) := by
  have hpos : 0 < d.len := by
    rw [← Chunk.length_slots, hslots, List.length_append]
    have := List.length_pos_of_ne_nil ht
    omega
  have hp := packed_concat h.full_len h.full_wellFormed hd hpos
  rw [hslots, ← List.append_assoc, h.slots] at hp
  exact hp

namespace Packed

variable {chunks : List (Chunk k)} {s : List (Slot k)}

/-- Packed chunks are none, or full ones followed by one that has at least a row. -/
lemma eq_nil_or_concat (hcap : 0 < cap) (h : Packed cap chunks s) :
    (chunks = [] ∧ s = []) ∨ ∃ full last, chunks = full ++ [last] ∧ (∀ c ∈ full, c.len = cap) ∧
      0 < last.len ∧ s = full.flatMap Chunk.slots ++ last.slots := by
  rcases List.eq_nil_or_concat' chunks with rfl | ⟨full, last, rfl⟩
  · exact Or.inl ⟨rfl, h.flatMap_slots.symm⟩
  · right
    have hs : s = full.flatMap Chunk.slots ++ last.slots := by
      rw [← h.flatMap_slots]
      simp
    have hmap := h.map_len
    have hn : 0 < s.length := by
      by_contra hzero
      rw [Nat.eq_zero_of_not_pos hzero] at hmap
      simp at hmap
    obtain ⟨q, r, hr, hle, hqr⟩ := exists_eq_mul_add hcap hn
    rw [hqr, chunkSizes_add q hr hle, List.map_append, List.map_singleton] at hmap
    obtain ⟨hfull, hlast⟩ := List.append_inj' hmap rfl
    refine ⟨full, last, rfl, fun c hc => ?_, ?_, hs⟩
    · have hmem : c.len ∈ full.map Chunk.len := List.mem_map_of_mem hc
      rw [hfull] at hmem
      exact List.eq_of_mem_replicate hmem
    · have : last.len = r := by simpa using hlast
      omega

lemma length_eq (hcap : 0 < cap) (h : Packed cap chunks s) :
    chunks.length = (s.length + cap - 1) / cap := by
  rw [← length_chunkSizes hcap, ← h.map_len, List.length_map]

/-- Packed chunks with the same slots have the same contents, chunk by chunk. -/
theorem contents_unique {chunks' : List (Chunk k)} (h : Packed cap chunks s)
    (h' : Packed cap chunks' s) :
    chunks.map (fun c => (c.values.values, c.validity))
      = chunks'.map fun c => (c.values.values, c.validity) := by
  -- both cut the same slots at the same places
  have hslots : chunks.map Chunk.slots = chunks'.map Chunk.slots := by
    rw [List.eq_iff_flatten_eq]
    constructor
    · rw [← List.flatMap_def, ← List.flatMap_def, h.flatMap_slots, h'.flatMap_slots]
    · simp only [List.map_map, Function.comp_def, Chunk.length_slots]
      rw [h.map_len, h'.map_len]
  apply List.ext_getElem
  · simpa using congrArg List.length hslots
  · intro i h1 h2
    simp only [List.length_map] at h1 h2
    have hi : chunks[i].slots = chunks'[i].slots := by
      have := List.getElem_of_eq hslots (i := i) (by simpa using h1)
      simpa using this
    obtain ⟨hv, hm⟩ := Chunk.contents_eq_of_slots_eq (h.wellFormed _ (List.getElem_mem h1))
      (h'.wellFormed _ (List.getElem_mem h2)) hi
    simp [hv, hm]

/-! ### Finding a slot -/

/-- The chunks before another one are full. -/
lemma len_of_mem_take (hcap : 0 < cap) (h : Packed cap chunks s) {j : ℕ} (hj : j < chunks.length)
    {c : Chunk k} (hc : c ∈ chunks.take j) : c.len = cap := by
  rcases h.eq_nil_or_concat hcap with ⟨rfl, -⟩ | ⟨full, last, rfl, hlen, -, -⟩
  · exact absurd hj (by simp)
  · rw [List.length_append, List.length_singleton] at hj
    rw [List.take_append_of_le_length (by omega)] at hc
    exact hlen c (List.mem_of_mem_take hc)

/-- The chunk with a number, between the slots of the chunks before it, as many as `j` full chunks
have, and those of the chunks after it. -/
lemma split (hcap : 0 < cap) (h : Packed cap chunks s) {j : ℕ} (hj : j < chunks.length) :
    s = (chunks.take j).flatMap Chunk.slots ++
        (chunks[j].slots ++ (chunks.drop (j + 1)).flatMap Chunk.slots) ∧
      ((chunks.take j).flatMap Chunk.slots).length = j * cap := by
  have hchunks : chunks = chunks.take j ++ (chunks[j] :: chunks.drop (j + 1)) := by
    rw [← List.drop_eq_getElem_cons hj, List.take_append_drop]
  constructor
  · rw [← h.flatMap_slots, ← List.flatMap_cons, ← List.flatMap_append, ← hchunks]
  · rw [length_flatMap_slots, map_len_eq_replicate fun c hc => h.len_of_mem_take hcap hj hc,
      List.sum_replicate, smul_eq_mul, List.length_take, min_eq_left hj.le]

/-- The chunk in which a slot is found, and that its offset lies in it. -/
lemma exists_offset_lt (hcap : 0 < cap) (h : Packed cap chunks s) {i : ℕ} (hi : i < s.length) :
    ∃ hj : i / cap < chunks.length, i % cap < chunks[i / cap].len := by
  have hdiv := Nat.div_add_mod' i cap
  have hmod := Nat.mod_lt i hcap
  rcases h.eq_nil_or_concat hcap with ⟨-, rfl⟩ | ⟨full, last, rfl, hlen, hpos, rfl⟩
  · exact absurd hi (by simp)
  · rw [List.length_append, length_flatMap_slots, map_len_eq_replicate hlen, List.sum_replicate,
      smul_eq_mul, Chunk.length_slots] at hi
    have hle : last.len ≤ cap := (h.wellFormed last (by simp)).len_le
    rcases Nat.lt_or_ge (i / cap) full.length with hlt | hge
    · refine ⟨by simp; omega, ?_⟩
      rw [List.getElem_append_left hlt, hlen _ (List.getElem_mem hlt)]
      exact hmod
    · -- the slot is one of the last chunk, which may have fewer than `cap`
      have hlast : i / cap = full.length := by
        have : i / cap ≤ full.length := by
          rw [← Nat.lt_succ_iff, Nat.div_lt_iff_lt_mul hcap, Nat.succ_mul]
          omega
        omega
      rw [hlast] at hdiv
      refine ⟨by simp [hlast], ?_⟩
      simp only [hlast, List.getElem_concat_length]
      omega

/-- The slot at an index is found in chunk `i / cap` at offset `i % cap`. -/
lemma exists_getElem (hcap : 0 < cap) (h : Packed cap chunks s) {i : ℕ} (hi : i < s.length) :
    ∃ (hj : i / cap < chunks.length) (ho : i % cap < chunks[i / cap].slots.length),
      chunks[i / cap].slots[i % cap] = s[i] := by
  obtain ⟨hj, ho⟩ := h.exists_offset_lt hcap hi
  obtain ⟨hs, hpre⟩ := h.split hcap hj
  have hdiv := Nat.div_add_mod' i cap
  rw [← Chunk.length_slots] at ho
  refine ⟨hj, ho, ?_⟩
  have hge : ((chunks.take (i / cap)).flatMap Chunk.slots).length ≤ i := by omega
  have hoff : i - ((chunks.take (i / cap)).flatMap Chunk.slots).length = i % cap := by omega
  rw [List.getElem_of_eq hs hi, List.getElem_append_right hge]
  simp only [hoff]
  rw [List.getElem_append_left ho]

/-- Replacing the chunk that holds a slot by one in which this slot is replaced. -/
lemma set (hcap : 0 < cap) (h : Packed cap chunks s) {i : ℕ} (hi : i < s.length)
    (hj : i / cap < chunks.length) {d : Chunk k} {x : Slot k} (hd : d.WellFormed cap)
    (hslots : d.slots = chunks[i / cap].slots.set (i % cap) x) :
    Packed cap (chunks.set (i / cap) d) (s.set i x) := by
  obtain ⟨_, ho⟩ := h.exists_offset_lt hcap hi
  obtain ⟨hs, hpre⟩ := h.split hcap hj
  have hdiv := Nat.div_add_mod' i cap
  rw [← Chunk.length_slots] at ho
  have hlen : d.len = chunks[i / cap].len := by
    rw [← Chunk.length_slots, hslots, List.length_set, Chunk.length_slots]
  refine ⟨?_, ?_, fun c hc => ?_⟩
  · have hge : ((chunks.take (i / cap)).flatMap Chunk.slots).length ≤ i := by omega
    have hoff : i - ((chunks.take (i / cap)).flatMap Chunk.slots).length = i % cap := by omega
    rw [List.set_eq_take_append_cons_drop, if_pos hj, List.flatMap_append, List.flatMap_cons,
      hslots]
    conv_rhs => rw [hs, List.set_append_right _ _ hge, hoff, List.set_append_left _ _ ho]
  · rw [List.length_set, ← h.map_len, List.map_set, hlen]
    apply List.ext_getElem (by simp)
    intro n h1 h2
    rw [List.getElem_set]
    split_ifs with hn
    · subst hn
      simp
    · rfl
  · rcases List.mem_or_eq_of_mem_set hc with hc | rfl
    · exact h.wellFormed c hc
    · exact hd

/-! ### Running over all chunks -/

/-- A function of slots applied chunk by chunk. -/
lemma map (h : Packed cap chunks s) {f : Chunk k → Chunk k} {g : Slot k → Slot k}
    (hf : ∀ c ∈ chunks, (f c).WellFormed cap ∧ (f c).slots = c.slots.map g) :
    Packed cap (chunks.map f) (s.map g) := by
  refine ⟨?_, ?_, fun c hc => ?_⟩
  · rw [← h.flatMap_slots, List.flatMap_map, List.map_flatMap]
    exact List.flatMap_congr fun c hc => (hf c hc).2
  · rw [List.length_map, ← h.map_len, List.map_map]
    refine List.map_congr_left fun c hc => ?_
    rw [Function.comp_apply, ← Chunk.length_slots, (hf c hc).2, List.length_map,
      Chunk.length_slots]
  · obtain ⟨d, hd, rfl⟩ := List.mem_map.1 hc
    exact (hf d hd).1

/-- The nulls of packed chunks are the nulls among their slots. -/
lemma sum_nullCount (h : Packed cap chunks s) :
    (chunks.map Chunk.nullCount).sum = s.countP Slot.isNull := by
  rw [← h.flatMap_slots, List.countP_flatMap]
  congr 1
  exact List.map_congr_left fun c hc => Chunk.nullCount_eq_countP (h.wellFormed c hc)

end Packed

/-- Working through two lists of chunks of equal sizes is working through their slots. -/
lemma flatMap_zipWith {f : Chunk k → Chunk k → Chunk k} {g : Slot k → Slot k → Slot k}
    {left right : List (Chunk k)} (hlen : left.map Chunk.len = right.map Chunk.len)
    (hf : ∀ c ∈ left, ∀ d ∈ right, c.len = d.len →
      (f c d).WellFormed cap ∧ (f c d).slots = List.zipWith g c.slots d.slots) :
    (List.zipWith f left right).flatMap Chunk.slots
        = List.zipWith g (left.flatMap Chunk.slots) (right.flatMap Chunk.slots) ∧
      (List.zipWith f left right).map Chunk.len = left.map Chunk.len ∧
      ∀ c ∈ List.zipWith f left right, c.WellFormed cap := by
  induction left generalizing right with
  | nil => simp
  | cons c left ih =>
    cases right with
    | nil => simp at hlen
    | cons d right =>
      simp only [List.map_cons, List.cons.injEq] at hlen
      obtain ⟨hcd, hrest⟩ := hlen
      obtain ⟨hwf, hslots⟩ := hf c (by simp) d (by simp) hcd
      obtain ⟨ih1, ih2, ih3⟩ := ih hrest fun c' hc' d' hd' =>
        hf c' (List.mem_cons_of_mem _ hc') d' (List.mem_cons_of_mem _ hd')
      simp only [List.zipWith_cons_cons, List.flatMap_cons, List.map_cons]
      refine ⟨?_, ?_, ?_⟩
      · rw [ih1, hslots, List.zipWith_append (by simp [hcd])]
      · rw [ih2, ← Chunk.length_slots, hslots, List.length_zipWith, Chunk.length_slots,
          Chunk.length_slots, ← hcd, min_self]
      · simpa using ⟨hwf, ih3⟩

/-- A function of pairs of slots applied to two lists of chunks of equal sizes. -/
lemma Packed.zipWith {cap' : ℕ} {left right : List (Chunk k)} {s t : List (Slot k)}
    (hl : Packed cap left s) (hr : Packed cap' right t)
    (hlen : left.map Chunk.len = right.map Chunk.len)
    {f : Chunk k → Chunk k → Chunk k} {g : Slot k → Slot k → Slot k}
    (hf : ∀ c ∈ left, ∀ d ∈ right, c.len = d.len →
      (f c d).WellFormed cap ∧ (f c d).slots = List.zipWith g c.slots d.slots) :
    Packed cap (List.zipWith f left right) (List.zipWith g s t) := by
  have hst : s.length = t.length := by
    rw [← hl.flatMap_slots, ← hr.flatMap_slots, length_flatMap_slots, length_flatMap_slots, hlen]
  obtain ⟨hslots, hmap, hwf⟩ := flatMap_zipWith hlen hf
  refine ⟨?_, ?_, hwf⟩
  · rw [hslots, hl.flatMap_slots, hr.flatMap_slots]
  · rw [hmap, hl.map_len, List.length_zipWith, ← hst, min_self]

/-! ### Growing and shrinking -/

/-- A chunk with room: the last one, or a further one that is empty. -/
lemma Packed.opened {chunks : Array (Chunk k)} {s : List (Slot k)} (hcap : 0 < cap)
    (h : Packed cap chunks.toList s) : ∃ full last,
      (if chunks.back?.any (·.len < cap) then chunks else chunks.push (.empty cap))
        = (full ++ [last]).toArray ∧ Opened cap full last s := by
  rcases h.eq_nil_or_concat hcap with ⟨hnil, rfl⟩ | ⟨full, last, hcons, hlen, hpos, rfl⟩
  · refine ⟨[], .empty cap, ?_, rfl, by simp, by simp, Chunk.wellFormed_empty cap, hcap⟩
    have hback : chunks.back? = none := by
      rw [← Array.getLast?_toList, hnil, List.getLast?_nil]
    apply Array.toList_inj.1
    simp [hback, hnil]
  · have hwf := h.wellFormed
    rw [hcons] at hwf
    have hfull : ∀ c ∈ full, c.WellFormed cap := fun c hc => hwf c (by simp [hc])
    have hlast := hwf last (by simp)
    have hback : chunks.back? = some last := by
      rw [← Array.getLast?_toList, hcons, List.getLast?_concat]
    by_cases hroom : last.len < cap
    · refine ⟨full, last, ?_, rfl, hlen, hfull, hlast, hroom⟩
      apply Array.toList_inj.1
      simp [hback, hroom, hcons]
    · -- the last chunk is full and becomes one of the full ones
      have heq : last.len = cap := le_antisymm hlast.len_le (not_lt.1 hroom)
      refine ⟨full ++ [last], .empty cap, ?_, by simp, ?_, hwf, Chunk.wellFormed_empty cap, hcap⟩
      · apply Array.toList_inj.1
        simp [hback, hroom, hcons]
      · intro c hc
        rcases List.mem_append.1 hc with hc | hc
        · exact hlen c hc
        · rw [List.mem_singleton.1 hc, heq]

/-- The chunk that takes in the rows up to the one with number `q * cap + r`. -/
lemma Packed.exists_le_len (hcap : 0 < cap) {chunks : List (Chunk k)} {s : List (Slot k)}
    (h : Packed cap chunks s) {q r : ℕ} (hr : 0 < r) (hle : r ≤ cap)
    (hn : q * cap + r ≤ s.length) : ∃ hq : q < chunks.length, r ≤ chunks[q].len := by
  have hi : q * cap + (r - 1) < s.length := by omega
  have hdiv : (q * cap + (r - 1)) / cap = q := by
    rw [Nat.mul_comm, Nat.mul_add_div hcap, Nat.div_eq_of_lt (by omega), Nat.add_zero]
  have hmod : (q * cap + (r - 1)) % cap = r - 1 := by
    rw [Nat.mul_comm, Nat.mul_add_mod, Nat.mod_eq_of_lt (by omega)]
  obtain ⟨hq, ho⟩ := h.exists_offset_lt hcap hi
  simp only [hdiv, hmod] at hq ho
  exact ⟨hq, by omega⟩

/-- The first rows lie in as many chunks as are needed for them, the last of which is cut. -/
lemma Packed.take (hcap : 0 < cap) {chunks : List (Chunk k)} {s : List (Slot k)}
    (h : Packed cap chunks s) {q r : ℕ} (hr : 0 < r) (hle : r ≤ cap)
    (hn : q * cap + r ≤ s.length) :
    ∃ hq : q < chunks.length,
      Packed cap (chunks.take q ++ [chunks[q].truncate r]) (s.take (q * cap + r)) := by
  obtain ⟨hq, ho⟩ := h.exists_le_len hcap hr hle hn
  obtain ⟨hs, hpre⟩ := h.split hcap hq
  have hd := Chunk.slots_truncate (h.wellFormed _ (List.getElem_mem hq)) r
  have hpos : 0 < (chunks[q].truncate r).len := by
    rw [← Chunk.length_slots, hd.2, List.length_take, Chunk.length_slots]
    omega
  have htake : s.take (q * cap + r)
      = (chunks.take q).flatMap Chunk.slots ++ (chunks[q].truncate r).slots := by
    conv_lhs => rw [hs]
    rw [← hpre, List.take_append, List.take_of_length_le (Nat.le_add_right _ _),
      Nat.add_sub_cancel_left, List.take_append_of_le_length (by rw [Chunk.length_slots]; omega),
      hd.2]
  refine ⟨hq, ?_⟩
  rw [htake]
  exact packed_concat (fun c hc => h.len_of_mem_take hcap hq hc)
    (fun c hc => h.wellFormed c (List.mem_of_mem_take hc)) hd.1 hpos

/-- The slots that are left when the first rows are taken. -/
lemma Packed.drop (hcap : 0 < cap) {chunks : List (Chunk k)} {s : List (Slot k)}
    (h : Packed cap chunks s) {q r : ℕ} (hle : r ≤ cap) (hn : q * cap + r < s.length) :
    ∃ hq : q < chunks.length, s.drop (q * cap + r)
      = chunks[q].slots.drop r ++ (chunks.drop (q + 1)).flatMap Chunk.slots := by
  -- without rows to keep in it, the chunk only has to be there
  have hex : ∃ hq : q < chunks.length, r ≤ chunks[q].len := by
    rcases Nat.eq_zero_or_pos r with rfl | hr
    · obtain ⟨hq, -⟩ := h.exists_offset_lt (i := q * cap) hcap hn
      simp only [Nat.mul_div_cancel _ hcap] at hq
      exact ⟨hq, Nat.zero_le _⟩
    · exact h.exists_le_len hcap hr hle hn.le
  obtain ⟨hq, ho⟩ := hex
  obtain ⟨hs, hpre⟩ := h.split hcap hq
  refine ⟨hq, ?_⟩
  conv_lhs => rw [hs]
  rw [← hpre, List.drop_append, List.drop_of_length_le (Nat.le_add_right _ _), List.nil_append,
    Nat.add_sub_cancel_left, List.drop_append_of_le_length (by rw [Chunk.length_slots]; omega)]

end Columnar
