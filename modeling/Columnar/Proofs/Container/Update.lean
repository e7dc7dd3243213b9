import Columnar.Proofs.Container.Growth
/-!
# Changing rows in place

Overwriting, dropping, clamping and filling rows do to the slots what the list operation of the
same shape does. The null count is adjusted without another look at the masks; that the adjustment
is the difference it makes is part of what is proved for each operation.
-/

namespace Columnar.Container

variable {k : Kind} {o : Options} {s : List (Slot k)} {c : Container k}

/-! ### Overwriting -/

lemma splitAt_snd (c d : Container k) (j : ℕ) (chunk : Chunk k)
    (hd : d = { c with chunks := c.chunks.setIfInBounds j chunk }) :
    (splitAt j c).2 chunk = d := by
  rw [hd]
  simp [splitAt]

/-- How overwriting a slot changes the number of nulls. -/
lemma countP_isNull_set {i : ℕ} (hi : i < s.length) (cell : Cell k) :
    (s.set i cell.slot).countP Slot.isNull =
      match s[i].2, cell.isSome with
      | true, false => s.countP Slot.isNull + 1
      | false, true => s.countP Slot.isNull - 1
      | _, _ => s.countP Slot.isNull := by
  have hpos : s[i].2 = false → 0 < s.countP Slot.isNull := fun hs =>
    List.countP_pos_iff.2 ⟨s[i], List.getElem_mem hi, by simp [Slot.isNull, hs]⟩
  rw [List.countP_set hi, Cell.isNull_slot]
  rcases hs : s[i].2 with _ | _ <;> rcases cell with _ | v
  · have := hpos hs
    simp [Slot.isNull, hs]
    omega
  · simp [Slot.isNull, hs]
  · simp [Slot.isNull, hs]
  · simp [Slot.isNull, hs]

/-- What overwriting leaves behind once the place of the row is known. -/
lemma yields_set_of_locate {i number offset : ℕ} (hplace : c.locate i = .ok (number, offset))
    {cell : Cell k} {chunk : Chunk k}
    (hset : (Chunk.set offset cell).Yields (c.chunkAt number) () chunk) :
    (set i cell).Yields c () { c with
      chunks := c.chunks.setIfInBounds number chunk
      nullCount :=
        match (c.chunkAt number).validity.isValid offset, cell.isSome with
        | true, false => c.nullCount + 1
        | false, true => c.nullCount - 1
        | _, _ => c.nullCount } := by
  have hlocate := Edit.yields_checks (f := fun c : Container k => c.locate i) hplace
  have hreads := Edit.yields_reads
    (fun c : Container k => (c.chunkAt number).validity.isValid offset) c
  have hwithin := Edit.Yields.within (m := Chunk.set offset cell) (splitAt number) (s := c) hset
  rw [splitAt_snd c _ number chunk rfl] at hwithin
  exact hlocate.bind (hreads.bind (hwithin.bind (Edit.yields_updates _ _)))

/-- Overwriting a row overwrites its slot. -/
theorem yields_set (h : c.Stores o s) {i : ℕ} (hi : i < s.length) (cell : Cell k) :
    ∃ d, (set i cell).Yields c () d ∧ d.Stores o (s.set i cell.slot) := by
  obtain ⟨hj, ho, hchunk, hslot⟩ := h.exists_chunkAt hi
  let j := i / o.chunkCapacity k
  let offset := i % o.chunkCapacity k
  have hwf : (c.chunkAt j).WellFormed (o.chunkCapacity k) := by
    rw [hchunk]
    exact h.packed.wellFormed _ (by simp)
  have hvalid : (c.chunkAt j).validity.isValid offset = s[i].2 := by
    rw [← hslot]
    exact Chunk.isValid_eq_slot ho
  obtain ⟨chunk, hset, hchunkwf, hslots⟩ :=
    Chunk.yields_set hwf (Chunk.length_slots _ ▸ ho) cell
  refine ⟨_, yields_set_of_locate (h.locate_eq_ok hi) hset, ?_⟩
  constructor
  · exact h.options_eq
  · have hj' : j < c.chunks.toList.length := by simpa using hj
    have hp := h.packed.set h.capacity_pos hi hj' hchunkwf (x := cell.slot) (by
      rw [hslots, hchunk]
      rfl)
    simpa using hp
  · simpa using h.len_eq
  · -- the count is adjusted by the flag that was there before
    have hcount := countP_isNull_set hi cell
    rw [← h.nullCount_eq, ← hvalid] at hcount
    refine Eq.trans ?_ hcount.symm
    cases (c.chunkAt j).validity.isValid offset <;> cases cell.isSome <;> rfl

/-- There is no row to overwrite past the last one. -/
lemma refuses_set (h : c.Stores o s) {i : ℕ} (hi : s.length ≤ i) (cell : Cell k) :
    (set i cell).Refuses c (.indexOutOfRange i s.length) :=
  (Edit.refuses_checks (f := fun c : Container k => c.locate i) (h.locate_eq_error hi)).bind _

/-! ### Dropping rows -/

lemma drop_zipIdx {α : Type} (l : List α) (m n : ℕ) :
    (l.zipIdx m).drop n = (l.drop n).zipIdx (m + n) := by
  induction n generalizing l m with
  | zero => rfl
  | succ n ih =>
    cases l with
    | nil => rfl
    | cons a l =>
      rw [List.zipIdx_cons, List.drop_succ_cons, List.drop_succ_cons, ih]
      congr 1
      omega

/-- The nulls that are counted when rows from `n` on are dropped, as a sum over the chunks from the
one with the last row to be kept on. -/
lemma nullsFrom_eq_sum (c : Container k) (n : ℕ) :
    c.nullsFrom n = (((c.chunks.toList.drop (c.chunkCount n - 1)).zipIdx (c.chunkCount n - 1)).map
      fun p => (p.1.slots.drop (n - p.2 * c.chunkCapacity)).countP Slot.isNull).sum := by
  have hterm : ∀ (chunk : Chunk k) (m : ℕ),
      chunk.validity.nullCountIn (min m chunk.len) chunk.len
        = (chunk.slots.drop m).countP Slot.isNull := by
    intro chunk m
    rw [Chunk.nullCountIn_eq_countP]
    rcases le_total m chunk.len with hle | hle
    · rw [min_eq_left hle]
    · rw [min_eq_right hle, List.drop_of_length_le (by simp), List.drop_of_length_le (by simpa)]
  rw [nullsFrom, drop_zipIdx, Nat.zero_add, List.sum_eq_foldl, List.foldl_map]
  simp only [hterm]

/-- The counted nulls are those of the slots that are dropped. -/
lemma nullsFrom_eq (h : c.Stores o s) {n q r : ℕ} (hn : n = q * o.chunkCapacity k + r)
    (hr : r ≤ o.chunkCapacity k) (hq : c.chunkCount n - 1 = q) (hlt : n < s.length) :
    c.nullsFrom n = (s.drop n).countP Slot.isNull := by
  subst hn
  obtain ⟨hj, hdrop⟩ := h.packed.drop (o.chunkCapacity_pos k) hr hlt
  -- the chunks after the one that is cut are dropped as a whole
  have hrest : ∀ p ∈ (c.chunks.toList.drop (q + 1)).zipIdx (q + 1),
      (p.1.slots.drop (q * o.chunkCapacity k + r - p.2 * o.chunkCapacity k)).countP Slot.isNull
        = p.1.slots.countP Slot.isNull := by
    intro p hp
    have hle : (q + 1) * o.chunkCapacity k ≤ p.2 * o.chunkCapacity k :=
      Nat.mul_le_mul_right _ (List.le_snd_of_mem_zipIdx hp)
    rw [Nat.succ_mul] at hle
    rw [Nat.sub_eq_zero_of_le (by omega), List.drop_zero]
  have hsum : (c.chunks.toList.drop (q + 1)).map (fun chunk => chunk.slots.countP Slot.isNull)
      = ((c.chunks.toList.drop (q + 1)).zipIdx (q + 1)).map
        fun p => p.1.slots.countP Slot.isNull := by
    conv_lhs => rw [← List.zipIdx_map_fst (q + 1) (c.chunks.toList.drop (q + 1)), List.map_map]
    rfl
  rw [nullsFrom_eq_sum, hq, h.chunkCapacity_eq, List.drop_eq_getElem_cons hj, List.zipIdx_cons,
    List.map_cons, List.sum_cons, List.map_congr_left hrest, ← hsum, hdrop, List.countP_append,
    List.countP_flatMap, Nat.add_sub_cancel_left]
  rfl

/-- The first elements of an array, the last of them changed. -/
lemma toList_modify_take {α : Type} {a : Array α} {q : ℕ} (hq : q < a.size) (f : α → α) :
    ((a.take (q + 1)).modify ((a.take (q + 1)).size - 1) f).toList
      = a.toList.take q ++ [f a.toList[q]] := by
  have htake : (a.take (q + 1)).toList = a.toList.take q ++ [a.toList[q]] := by
    rw [Array.take_eq_extract, Array.toList_extract]
    exact List.take_succ_eq_append_getElem (by simpa using hq)
  have hlength : (a.toList.take q).length = q := by simpa using hq.le
  have hsize : (a.take (q + 1)).size - 1 = q := by
    rw [← Array.length_toList, htake, List.length_append, hlength]
    rfl
  rw [hsize, Array.toList_modify, htake,
    List.modify_eq_take_cons_drop (by simp only [List.length_append, hlength]; simp)]
  rw [List.take_append_of_le_length hlength.ge, List.take_of_length_le hlength.le]
  simp only [hlength, List.getElem_concat_length]
  simp [hlength]

/-- The chunks that hold the first rows: none of them, or full ones and the one with the last
row. -/
lemma Stores.chunkCount_cases (h : c.Stores o s) (n : ℕ) : (n = 0 ∧ c.chunkCount n = 0) ∨
    ∃ q r, 0 < r ∧ r ≤ o.chunkCapacity k ∧ n = q * o.chunkCapacity k + r ∧
      c.chunkCount n = q + 1 := by
  have hcap := o.chunkCapacity_pos k
  rw [chunkCount, h.chunkCapacity_eq]
  rcases Nat.eq_zero_or_pos n with rfl | hpos
  · exact Or.inl ⟨rfl, Nat.div_eq_of_lt (by omega)⟩
  · obtain ⟨q, r, hr, hle, rfl⟩ := exists_eq_mul_add hcap hpos
    exact Or.inr ⟨q, r, hr, hle, rfl, ceil_div q hr hle⟩

/-- The nulls that are counted when rows are dropped are those of the dropped slots. -/
lemma Stores.nullsFrom_eq_countP (h : c.Stores o s) {n : ℕ} (hn : n < s.length) :
    c.nullsFrom n = (s.drop n).countP Slot.isNull := by
  rcases h.chunkCount_cases n with ⟨rfl, hcount⟩ | ⟨q, r, -, hle, hqr, hcount⟩
  · exact nullsFrom_eq h (q := 0) (r := 0) (by simp) (Nat.zero_le _) (by rw [hcount]) hn
  · exact nullsFrom_eq h hqr hle (by rw [hcount, Nat.add_sub_cancel]) hn

/-- Dropping rows drops their slots. -/
theorem Stores.truncate (h : c.Stores o s) {n : ℕ} (hn : n < s.length) :
    (c.truncate n).Stores o (s.take n) := by
  have hcap := o.chunkCapacity_pos k
  have hsplit : s.countP Slot.isNull
      = (s.take n).countP Slot.isNull + (s.drop n).countP Slot.isNull := by
    rw [← List.countP_append, List.take_append_drop]
  have hlen : n = (s.take n).length := by
    rw [List.length_take, min_eq_left hn.le]
  have hnulls := h.nullsFrom_eq_countP hn
  -- a last row to be kept lies in a chunk that is kept and cut; without one, no chunk is left
  have hpacked : Packed (o.chunkCapacity k) (c.truncate n).chunks.toList (s.take n) := by
    rcases h.chunkCount_cases n with ⟨rfl, hcount⟩ | ⟨q, r, hr, hle, rfl, hcount⟩
    · simpa [Container.truncate, hcount] using packed_nil _
    · obtain ⟨hq, hp⟩ := h.packed.take hcap hr hle hn.le
      have hchunks : (c.truncate (q * o.chunkCapacity k + r)).chunks.toList
          = c.chunks.toList.take q ++ [c.chunks.toList[q].truncate r] := by
        simp only [Container.truncate, hcount, h.chunkCapacity_eq, Nat.add_sub_cancel,
          Nat.add_sub_cancel_left]
        exact toList_modify_take (by simpa using hq) _
      exact hchunks ▸ hp
  refine ⟨h.options_eq, hpacked, hlen, ?_⟩
  simp only [Container.truncate, hnulls, h.nullCount_eq, hsplit, Nat.add_sub_cancel]

/-- Resizing drops slots at the end or adds slots of nulls. -/
theorem yields_resize (h : c.Stores o s) (n : ℕ) : ∃ d, (resize n).Yields c () d ∧
    d.Stores o (s.take n ++ List.replicate (n - s.length) Slot.null) := by
  by_cases hle : c.len ≤ n
  · obtain ⟨d, ⟨events, hd⟩, hstores⟩ := yields_appendMany h none (n - c.len)
    refine ⟨d, ⟨events, ?_⟩, ?_⟩
    · rw [resize, if_pos hle]
      exact hd
    · rw [h.len_eq] at hstores hle
      rw [List.take_of_length_le hle]
      exact hstores
  · refine ⟨c.truncate n, ⟨#[], ?_⟩, ?_⟩
    · rw [resize, if_neg hle]
    · rw [h.len_eq] at hle
      rw [Nat.sub_eq_zero_of_le (by omega), List.replicate_zero, List.append_nil]
      exact h.truncate (by omega)

/-! ### Running over all rows -/

/-- A function of slots that keeps the flags, applied chunk by chunk. -/
lemma Stores.map (h : c.Stores o s) {f : Chunk k → Chunk k} {g : Slot k → Slot k}
    (hf : ∀ chunk, chunk.WellFormed (o.chunkCapacity k) →
      (f chunk).WellFormed (o.chunkCapacity k) ∧ (f chunk).slots = chunk.slots.map g)
    (hg : ∀ x, (g x).2 = x.2) :
    ({ c with chunks := c.chunks.map f } : Container k).Stores o (s.map g) := by
  refine ⟨h.options_eq, ?_, by simpa using h.len_eq, ?_⟩
  · rw [Array.toList_map]
    exact h.packed.map fun chunk hc => hf chunk (h.packed.wellFormed chunk hc)
  · rw [List.countP_map, h.nullCount_eq]
    congr 1
    funext x
    simp [Slot.isNull, hg]

/-- A copy holds the same slots. -/
lemma Stores.copy (h : c.Stores o s) : c.copy.Stores o s := by
  have hmap := h.map (f := Chunk.copy) (g := id) (fun chunk hc => by
    simpa using Chunk.slots_copy hc) fun x => rfl
  rwa [List.map_id] at hmap

/-- The value between two bounds that is closest to a value. -/
def clamp (lower upper v : k.Value) : k.Value :=
  if Comparison.less.evaluate v lower then lower
  else if Comparison.greater.evaluate v upper then upper
  else v

/-- Clamping changes the values of the rows that have one. -/
lemma Stores.clip (h : c.Stores o s) (lower upper : k.Value) : (c.clip lower upper).Stores o
    (s.map fun x => (if x.2 then clamp lower upper x.1 else x.1, x.2)) :=
  h.map (fun chunk hc => Chunk.slots_withValues hc (Chunk.toList_mapIdx_isValid chunk fun v valid =>
    if valid then clamp lower upper v else v)) fun _ => rfl

/-- Filling the nulls leaves the other rows alone and no null. -/
theorem Stores.fillNulls (h : c.Stores o s) (v : k.Value) :
    (c.fillNulls v).Stores o (s.map fun x => (if x.2 then x.1 else v, true)) := by
  -- without nulls nothing is done, which the count has to be right for
  by_cases hzero : c.nullCount = 0
  · have hvalid : ∀ x ∈ s, x.2 = true := by
      rw [h.nullCount_eq, List.countP_eq_zero] at hzero
      intro x hx
      simpa [Slot.isNull] using hzero x hx
    have hid : s.map (fun x => (if x.2 then x.1 else v, true)) = s := by
      rw [List.map_congr_left (g := id), List.map_id]
      intro x hx
      simp [hvalid x hx, Prod.ext_iff]
    rw [Container.fillNulls, if_pos hzero, hid]
    exact h
  · rw [Container.fillNulls, if_neg hzero]
    refine Stores.recountNulls h.options_eq ?_ (by simpa using h.len_eq)
    rw [Array.toList_map]
    exact h.packed.map fun chunk hc =>
      Chunk.slots_fillNullsInChunk (h.packed.wellFormed chunk hc) v

/-- One step of the loop that replaces every row: the rows before `i` have been replaced. -/
lemma yields_applyStep {g : Slot k → Slot k} {f : Cell k → Cell k} {i : ℕ} (hi : i < s.length)
    (h : c.Stores o ((s.take i).map g ++ s.drop i)) (hg : g s[i] = (f s[i].cell).slot) :
    ∃ d, (Edit.checks (fun c : Container k => c.get i) >>= fun cell => set i (f cell)).Yields
        c () d ∧ d.Stores o ((s.take (i + 1)).map g ++ s.drop (i + 1)) := by
  have hpre : ((s.take i).map g).length = i := by simpa using hi.le
  have hdrop : s.drop i = s[i] :: s.drop (i + 1) := List.drop_eq_getElem_cons hi
  have hlt : i < ((s.take i).map g ++ s.drop i).length := by
    rw [List.length_append, hpre, List.length_drop]
    omega
  have hget : ((s.take i).map g ++ s.drop i)[i] = s[i] := by
    rw [List.getElem_append_right hpre.le]
    simp only [hpre, Nat.sub_self, List.getElem_drop, Nat.add_zero]
  have hset : ((s.take i).map g ++ s.drop i).set i (f s[i].cell).slot
      = (s.take (i + 1)).map g ++ s.drop (i + 1) := by
    rw [List.set_append_right _ _ hpre.le, hpre, Nat.sub_self, hdrop, List.set_cons_zero,
      List.take_succ_eq_append_getElem hi, List.map_append, List.map_singleton, hg,
      List.append_assoc]
    rfl
  obtain ⟨d, hd, hstores⟩ := yields_set h hlt (f s[i].cell)
  have hread := Edit.yields_checks (f := fun c : Container k => c.get i) (h.get_eq_ok hlt)
  rw [hget] at hread
  exact ⟨d, hread.bind hd, hset ▸ hstores⟩

/-- One row after the other is replaced by its image. -/
theorem yields_applyInPlace (h : c.Stores o s) (f : Cell k → Cell k) :
    ∃ d, (applyInPlace f).Yields c () d ∧ d.Stores o (s.map fun x => (f x.cell).slot) := by
  obtain ⟨d, hd, hstores⟩ := Edit.yields_forEach (s := c)
    (f := fun i => Edit.checks (fun c : Container k => c.get i) >>= fun cell => set i (f cell))
    (P := fun done c => c.Stores o
      ((s.take done.length).map (fun x => (f x.cell).slot) ++ s.drop done.length))
    -- the next index is the number of rows done
    (List.range c.len) (fun done i rest c' hrange hc => by
      have hlen : done.length < c.len := by
        rw [← List.length_range (n := c.len), hrange]
        simp
      have hi : done.length = i := by
        have hget := congrArg (·[done.length]?) hrange
        simpa [List.getElem?_range hlen] using hget
      rw [h.len_eq] at hlen
      rw [List.length_append, List.length_singleton]
      exact hi ▸ yields_applyStep hlen hc rfl)
    (by simpa using h)
  refine ⟨d, (Edit.yields_reads Container.len c).bind hd, ?_⟩
  rw [List.length_range, h.len_eq] at hstores
  simpa using hstores

end Columnar.Container
