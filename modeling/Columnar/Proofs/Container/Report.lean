import Columnar.Proofs.Chunk.Buffer
import Columnar.Proofs.Container.Stores
import Columnar.Container.Update
/-!
# What adding rows reports

A row, or as many equal rows as one chunk takes, changes one chunk, the last one (`Fills`). What is
reported of it can be read off from the container before and the container after: that the chunk was
begun, unless it is the first one of all, and that its allocation has grown (`reportTo`). Reports
that belong to one another can be put together, as long as what has been filled up stays as it is.
-/

namespace Columnar

variable {k : Kind}

namespace Chunk

variable {cap : ℕ} {c d : Chunk k}

/-- The report that the allocation in `c` has grown to that in `d`, if it has. -/
def growthTo (c d : Chunk k) : List Event :=
  if d.values.capacity = c.values.capacity then []
  else [.bufferGrew k c.values.capacity d.values.capacity]

lemma growthTo_self (c : Chunk k) : c.growthTo c = [] := if_pos rfl

/-- What is reported of the buffer of a chunk is that its allocation has grown. -/
lemma reports_growthTo {m : Edit (Buffer k) Unit} {b : Buffer k} {needed : ℕ}
    (hneeded : needed ≤ c.values.ceiling) (hm : m.Reports c.values () b (c.values.growth needed))
    (hb : b.capacity = c.values.grown needed) (f : Mask → Mask) :
    (onValues m >>= fun _ => updateValidity f).Reports c () ⟨b, f c.validity⟩
      (c.growthTo ⟨b, f c.validity⟩) := by
  rw [Buffer.growth_eq_ite hneeded, ← hb] at hm
  exact (Edit.Reports.within _ hm).bind_updates _

/-- With room for one more row, a push adds its slot and reports growth. -/
lemma exists_reports_push (h : c.WellFormed cap) (hroom : c.len < cap) (cell : Cell k) :
    ∃ d, (push cell).Reports c () d (c.growthTo d) ∧ d.WellFormed cap ∧
      d.slots = c.slots ++ [cell.slot] := by
  have hneeded : c.values.size + 1 ≤ c.values.ceiling := by
    rw [h.ceiling_eq]
    exact hroom
  have hpush : (push cell).Reports c () _ _ := reports_growthTo hneeded
    (Buffer.reports_append cell.stored (show c.values.size ≠ _ by omega)) rfl _
  obtain ⟨d, hd, hwf, hslots⟩ := yields_push h hroom cell
  obtain rfl := hd.state.symm.trans hpush.state
  exact ⟨_, hpush, hwf, hslots⟩

/-- With room for `count` more rows, adding them at once reports growth at most once. -/
lemma exists_reports_pushMany (h : c.WellFormed cap) {count : ℕ} (hroom : c.len + count ≤ cap)
    (cell : Cell k) : ∃ d, (pushMany cell count).Reports c () d (c.growthTo d) ∧ d.WellFormed cap ∧
      d.slots = c.slots ++ List.replicate count cell.slot := by
  have hneeded : c.values.size + count ≤ c.values.ceiling := by
    rw [h.ceiling_eq]
    exact hroom
  have hpush : (pushMany cell count).Reports c () _ _ :=
    reports_growthTo hneeded (Buffer.reports_appendFill cell.stored hneeded) rfl _
  obtain ⟨d, hd, hwf, hslots⟩ := yields_pushMany h hroom cell
  obtain rfl := hd.state.symm.trans hpush.state
  exact ⟨_, hpush, hwf, hslots⟩

end Chunk

namespace Opened

variable {cap : ℕ} {full : List (Chunk k)} {last : Chunk k} {s : List (Slot k)}

/-- The ceiling of the opened chunk is the capacity that the options give. -/
lemma remaining_eq (h : Opened cap full last s) : last.values.remaining = cap - last.len := by
  rw [Buffer.remaining, h.last_wellFormed.ceiling_eq]
  rfl

/-- The rows before the chunk that was opened are those of full chunks. -/
lemma length_eq (h : Opened cap full last s) : s.length = full.length * cap + last.len := by
  rw [← h.slots, List.length_append, length_flatMap_slots, map_len_eq_replicate h.full_len,
    List.sum_replicate, smul_eq_mul, Chunk.length_slots]

end Opened

namespace Container

variable {o : Options} {s : List (Slot k)} {c d e : Container k} {cell : Cell k} {i j n : ℕ}

/-! ### Reports as differences -/

/-- The report that chunk `j` was begun, if the container did not have it and it is not the first
one: it begins with the row that comes after `j` full chunks. -/
def rollover (c : Container k) (j : ℕ) : List Event :=
  if c.chunks.size ≤ j ∧ 0 < j then [.rolledOver k j (j * c.chunkCapacity)] else []

/-- What is reported of chunk `j` when `c` becomes `d`. -/
def chunkReport (c d : Container k) (j : ℕ) : List Event :=
  c.rollover j ++ (c.chunkAt j).growthTo (d.chunkAt j)

/-- What is reported of all chunks when `c` becomes `d`, in their order. -/
def reportTo (c d : Container k) : List Event :=
  (List.range d.chunks.size).flatMap (c.chunkReport d)

lemma rollover_eq_nil (h : j < c.chunks.size) : c.rollover j = [] := if_neg (by omega)

lemma chunkReport_eq_nil (hj : j < c.chunks.size) (h : d.chunkAt j = c.chunkAt j) :
    c.chunkReport d j = [] := by
  rw [chunkReport, rollover_eq_nil hj, h, Chunk.growthTo_self, List.append_nil]

lemma chunkAt_of_size_le (h : c.chunks.size ≤ j) : c.chunkAt j = .empty c.chunkCapacity := by
  rw [chunkAt, Array.getD_eq_getD_getElem?, Array.getElem?_eq_none h, Option.getD_none]

/-- `d` is `c` with further rows in chunk `j`, which becomes its last one. -/
structure Fills (c d : Container k) (j : ℕ) : Prop where
  options_eq : d.options = c.options
  size_eq : d.chunks.size = j + 1
  /-- The chunk is the last one already, or the next. -/
  size_bounds : j ≤ c.chunks.size ∧ c.chunks.size ≤ j + 1
  chunkAt_eq : ∀ i, i ≠ j → d.chunkAt i = c.chunkAt i
  len_lt : (c.chunkAt j).len < (d.chunkAt j).len
  /-- The chunk had room. -/
  lt_capacity : (c.chunkAt j).len < c.chunkCapacity

/-- `d` is `c` with further rows, none of them in chunks that were full. -/
structure Grows (c d : Container k) : Prop where
  options_eq : d.options = c.options
  size_le : c.chunks.size ≤ d.chunks.size
  chunkAt_eq_of_full : ∀ i, (c.chunkAt i).len = c.chunkCapacity → d.chunkAt i = c.chunkAt i
  /-- A chunk has further rows, or is as it was. -/
  eq_or_len_lt : ∀ i, d.chunkAt i = c.chunkAt i ∨ (c.chunkAt i).len < (d.chunkAt i).len

lemma Grows.refl (c : Container k) : c.Grows c :=
  ⟨rfl, le_rfl, fun _ _ => rfl, fun _ => Or.inl rfl⟩

lemma Grows.chunkCapacity_eq (h : c.Grows d) : d.chunkCapacity = c.chunkCapacity :=
  congrArg (Options.chunkCapacity · k) h.options_eq

lemma Grows.trans (h : c.Grows d) (h' : d.Grows e) : c.Grows e where
  options_eq := h'.options_eq.trans h.options_eq
  size_le := h.size_le.trans h'.size_le
  chunkAt_eq_of_full i hi := by
    have hd := h.chunkAt_eq_of_full i hi
    rw [h'.chunkAt_eq_of_full i (by rw [hd, hi, h.chunkCapacity_eq]), hd]
  eq_or_len_lt i := by
    rcases h.eq_or_len_lt i, h'.eq_or_len_lt i with ⟨hd | hd, he | he⟩
    · exact Or.inl (he.trans hd)
    · exact Or.inr (hd ▸ he)
    · exact Or.inr (he ▸ hd)
    · exact Or.inr (hd.trans he)

lemma Fills.grows (h : c.Fills d j) : c.Grows d where
  options_eq := h.options_eq
  size_le := h.size_eq ▸ h.size_bounds.2
  chunkAt_eq_of_full i hi := h.chunkAt_eq i fun hij => by
    have hlt := h.lt_capacity
    rw [hij] at hi
    omega
  eq_or_len_lt i := by
    rcases eq_or_ne i j with rfl | hij
    · exact Or.inr h.len_lt
    · exact Or.inl (h.chunkAt_eq i hij)

/-- What is reported is what is reported of the one chunk. -/
lemma Fills.reportTo_eq (h : c.Fills d j) : c.reportTo d = c.chunkReport d j := by
  have hbefore : (List.range j).flatMap (c.chunkReport d) = [] := by
    rw [List.flatMap_eq_nil_iff]
    intro i hi
    rw [List.mem_range] at hi
    exact chunkReport_eq_nil (hi.trans_le h.size_bounds.1) (h.chunkAt_eq i hi.ne)
  rw [reportTo, h.size_eq, List.range_succ, List.flatMap_append, hbefore, List.nil_append,
    List.flatMap_singleton]

/-! ### Reports put together -/

/-- A function of numbers that comes to nothing below a number, after one that agrees with a third
there. -/
lemma flatMap_range_append {f g h : ℕ → List Event} {m n : ℕ} (hle : m ≤ n)
    (hbelow : ∀ i < m, f i = h i) (hnil : ∀ i < m, g i = []) (habove : ∀ i, m ≤ i → g i = h i) :
    (List.range m).flatMap f ++ (List.range n).flatMap g = (List.range n).flatMap h := by
  obtain ⟨r, rfl⟩ := Nat.exists_eq_add_of_le hle
  have hf : (List.range m).flatMap f = (List.range m).flatMap h :=
    List.flatMap_congr fun i hi => hbelow i (List.mem_range.1 hi)
  have hg : (List.range m).flatMap g = [] :=
    List.flatMap_eq_nil_iff.2 fun i hi => hnil i (List.mem_range.1 hi)
  rw [List.range_add, List.flatMap_append, List.flatMap_append, hf, hg, List.nil_append,
    List.flatMap_map, List.flatMap_map]
  exact congrArg _ (List.flatMap_congr fun i _ => habove _ (Nat.le_add_right m i))

namespace Grows

lemma rollover_eq (h : c.Grows d) (hj : d.chunks.size ≤ j) : d.rollover j = c.rollover j := by
  have hc : c.chunks.size ≤ j := h.size_le.trans hj
  simp only [rollover, h.chunkCapacity_eq, hj, hc, true_and]

/-- Further reports follow what was reported before, if the chunks that were there by then have
stayed as they were. -/
lemma reportTo_append (h : c.Grows d) (h' : d.Grows e)
    (hkeep : ∀ i < d.chunks.size, e.chunkAt i = d.chunkAt i) :
    c.reportTo d ++ d.reportTo e = c.reportTo e := by
  refine flatMap_range_append h'.size_le (fun i hi => ?_) (fun i hi => ?_) fun i hi => ?_
  · rw [chunkReport, chunkReport, hkeep i hi]
  · exact chunkReport_eq_nil hi (hkeep i hi)
  · rw [chunkReport, chunkReport, h.rollover_eq hi, chunkAt_of_size_le hi,
      chunkAt_of_size_le (h.size_le.trans hi), h.chunkCapacity_eq]

end Grows

/-! ### One pass -/

lemma splitLast_concat (full : List (Chunk k)) (last : Chunk k) (len nullCount : ℕ)
    (options : Options) :
    (splitLast ⟨(full ++ [last]).toArray, len, nullCount, options⟩).1 = last ∧
      ∀ d, (splitLast ⟨(full ++ [last]).toArray, len, nullCount, options⟩).2 d
        = ⟨(full ++ [d]).toArray, len, nullCount, options⟩ := by
  simp [splitLast]

/-- A further chunk without rows is the one that is read past the end. -/
lemma chunkAt_push_empty (c : Container k) (i : ℕ) :
    chunkAt { c with chunks := c.chunks.push (.empty c.chunkCapacity) } i = c.chunkAt i := by
  show (c.chunks.push (.empty c.chunkCapacity)).getD i (.empty c.chunkCapacity)
    = c.chunks.getD i (.empty c.chunkCapacity)
  rw [Array.getD_eq_getD_getElem?, Array.getD_eq_getD_getElem?, Array.getElem?_push]
  split_ifs with hi
  · rw [hi, Array.getElem?_eq_none le_rfl]
    rfl
  · rfl

/-- Opening a chunk puts `last` after the chunks `full`. It is reported if it begins a chunk, and
leaves every chunk as it reads. -/
structure Opens (c : Container k) (o : Options) (full : List (Chunk k)) (last : Chunk k)
    (s : List (Slot k)) : Prop where
  reports : openChunk.Reports c () { c with chunks := (full ++ [last]).toArray }
    (c.rollover full.length)
  opened : Opened (o.chunkCapacity k) full last s
  chunkAt_eq : ∀ i, chunkAt { c with chunks := (full ++ [last]).toArray } i = c.chunkAt i
  size_bounds : full.length ≤ c.chunks.size ∧ c.chunks.size ≤ full.length + 1

lemma exists_opens (h : c.Stores o s) : ∃ full last, c.Opens o full last s := by
  obtain ⟨full, last, hchunks, hopened⟩ := h.packed.opened (o.chunkCapacity_pos k)
  refine ⟨full, last, ?_⟩
  rw [← h.chunkCapacity_eq] at hchunks
  by_cases hroom : c.chunks.back?.any (·.len < c.chunkCapacity)
  · -- the last chunk has room
    rw [if_pos hroom] at hchunks
    have hsize : c.chunks.size = full.length + 1 := by simp [hchunks]
    constructor
    · rw [← hchunks, rollover_eq_nil (by omega)]
      exact if_pos hroom
    · exact hopened
    · exact fun i => by rw [← hchunks]
    · omega
  · rw [if_neg hroom] at hchunks
    have hsize : c.chunks.size = full.length := by
      have := congrArg Array.size hchunks
      simpa using this
    have hlast : last = .empty c.chunkCapacity := by
      have := congrArg Array.back? hchunks
      simpa using this.symm
    have hlen : c.len = full.length * c.chunkCapacity := by
      rw [h.len_eq, hopened.length_eq, h.chunkCapacity_eq, hlast]
      rfl
    have hempty : c.chunks.isEmpty = decide (full.length = 0) := by
      rw [← hsize]
      rfl
    constructor
    · rw [← hchunks, Edit.Reports, openChunk, hasRoom, if_neg hroom, hlen, hempty, hsize, rollover]
      rcases Nat.eq_zero_or_pos full.length with hzero | hpos
      · rw [if_pos (decide_eq_true hzero), if_neg (by omega)]
      · rw [if_neg (by simpa using hpos.ne'), if_pos ⟨hsize.le, hpos⟩]
    · exact hopened
    · exact fun i => by rw [← hchunks, chunkAt_push_empty]
    · omega

namespace Opens

variable {full : List (Chunk k)} {last chunk : Chunk k} {count : ℕ}

lemma chunkAt_length (h : c.Opens o full last s) : c.chunkAt full.length = last := by
  rw [← h.chunkAt_eq]
  simp [chunkAt, Array.getD]

/-- The chunks before the one that was opened are full. -/
lemma len_chunkAt (h : c.Opens o full last s) (hi : i < full.length) :
    (c.chunkAt i).len = o.chunkCapacity k := by
  have hfull := h.opened.full_len full[i] (List.getElem_mem hi)
  rw [← h.chunkAt_eq, chunkAt]
  simpa [Array.getD, hi, List.getElem_append_left, Nat.lt_succ_of_lt hi] using hfull

/-- With another chunk for the one that was opened, the container reads otherwise there alone. -/
lemma chunkAt_concat (h : c.Opens o full last s) (chunk : Chunk k) (len nullCount : ℕ) :
    chunkAt ⟨(full ++ [chunk]).toArray, len, nullCount, c.options⟩ full.length = chunk ∧
      ∀ i, i ≠ full.length →
        chunkAt ⟨(full ++ [chunk]).toArray, len, nullCount, c.options⟩ i = c.chunkAt i := by
  constructor
  · simp [chunkAt, Array.getD]
  · intro i hi
    rw [← h.chunkAt_eq]
    show ((full ++ [chunk]).toArray).getD i _ = ((full ++ [last]).toArray).getD i _
    rw [Array.getD_eq_getD_getElem?, Array.getD_eq_getD_getElem?, List.getElem?_toArray,
      List.getElem?_toArray, List.getElem?_append, List.getElem?_append]
    split_ifs with hlt
    · rfl
    · rw [List.getElem?_eq_none (by simp; omega), List.getElem?_eq_none (by simp; omega)]
      rfl

/-- The chunk that was opened, with further rows in it. -/
lemma fills (h : c.Opens o full last s) (hcapacity : c.chunkCapacity = o.chunkCapacity k)
    (hlen : last.len < chunk.len) (len nullCount : ℕ) :
    c.Fills ⟨(full ++ [chunk]).toArray, len, nullCount, c.options⟩ full.length := by
  obtain ⟨hchunk, hothers⟩ := h.chunkAt_concat chunk len nullCount
  constructor
  · rfl
  · show ((full ++ [chunk]).toArray).size = _
    simp
  · exact h.size_bounds
  · exact hothers
  · rw [h.chunkAt_length]
    exact hchunk.symm ▸ hlen
  · rw [h.chunkAt_length, hcapacity]
    exact h.opened.last_lt

/-- The slots of the chunk that was opened, with those of equal rows after them. -/
lemma stores (hopen : c.Opens o full last s) (h : c.Stores o s)
    (hwf : chunk.WellFormed (o.chunkCapacity k))
    (hslots : chunk.slots = last.slots ++ List.replicate count cell.slot) (hcount : 0 < count) :
    Stores ⟨(full ++ [chunk]).toArray, c.len + count,
      if cell.isNone then c.nullCount + count else c.nullCount, c.options⟩ o
        (s ++ List.replicate count cell.slot) := by
  constructor
  · exact h.options_eq
  · exact hopen.opened.close hwf hslots (by simp; omega)
  · simp [h.len_eq]
  · rcases cell with _ | v
    · simp [h.nullCount_eq, List.countP_replicate, Slot.isNull, Slot.null]
    · simp [h.nullCount_eq, List.countP_replicate]

/-- Filling the chunk that was opened and counting the rows, which the chunk has taken as slots. -/
lemma exists_reports_fill (hopen : c.Opens o full last s) (h : c.Stores o s)
    {m : Edit (Chunk k) Unit} (hm : m.Reports last () chunk (last.growthTo chunk))
    (hwf : chunk.WellFormed (o.chunkCapacity k))
    (hslots : chunk.slots = last.slots ++ List.replicate count cell.slot) (hcount : 0 < count) :
    ∃ filled d, (Edit.within splitLast m).Reports
        { c with chunks := (full ++ [last]).toArray } () filled (last.growthTo chunk) ∧
      (countRows cell count).Reports filled () d [] ∧
      d.Stores o (s ++ List.replicate count cell.slot) ∧ c.Fills d full.length ∧
      d.chunkAt full.length = chunk := by
  obtain ⟨hfst, hsnd⟩ := splitLast_concat full last c.len c.nullCount c.options
  have hwithin := Edit.Reports.within (m := m) splitLast
    (s := { c with chunks := (full ++ [last]).toArray }) (by rw [hfst]; exact hm)
  rw [hsnd] at hwithin
  have hlen : last.len < chunk.len := by
    rw [← Chunk.length_slots, ← Chunk.length_slots, hslots, List.length_append,
      List.length_replicate]
    omega
  exact ⟨_, _, hwithin, Edit.reports_updates _ _, hopen.stores h hwf hslots hcount,
    hopen.fills h.chunkCapacity_eq hlen _ _, (hopen.chunkAt_concat chunk _ _).1⟩

/-- What is reported when a chunk is opened and then filled. -/
lemma reportTo_eq (hopen : c.Opens o full last s) (hfills : c.Fills d full.length)
    (hchunk : d.chunkAt full.length = chunk) :
    c.rollover full.length ++ last.growthTo chunk = c.reportTo d := by
  rw [hfills.reportTo_eq, chunkReport, hopen.chunkAt_length, hchunk]

/-- A pass of the loop adds as many rows as its chunk has room for, or as are left to add. If rows
are left afterwards, all chunks are full. -/
theorem exists_reports_appendRun (hopen : c.Opens o full last s) (h : c.Stores o s) (cell : Cell k)
    (hn : 0 < n) : ∃ d, 0 < min n last.values.remaining ∧
      (appendRun cell n).Reports c (min n last.values.remaining) d (c.reportTo d) ∧
      d.Stores o (s ++ List.replicate (min n last.values.remaining) cell.slot) ∧
      c.Fills d full.length ∧
      (min n last.values.remaining < n →
        ∀ i < d.chunks.size, (d.chunkAt i).len = d.chunkCapacity) := by
  have hlast := hopen.opened.last_lt
  have hremaining := hopen.opened.remaining_eq
  let count := min n last.values.remaining
  have hroom : chunkAt { c with chunks := (full ++ [last]).toArray }
      ((full ++ [last]).toArray.size - 1) = last := by
    simp [chunkAt, Array.getD]
  have hreads := Edit.reports_reads
    (fun c : Container k => (c.chunkAt (c.chunks.size - 1)).values.remaining)
    { c with chunks := (full ++ [last]).toArray }
  simp only [hroom] at hreads
  obtain ⟨chunk, hpush, hwf, hslots⟩ := Chunk.exists_reports_pushMany hopen.opened.last_wellFormed
    (show last.len + count ≤ _ by omega) cell
  have hpos : 0 < count := by omega
  obtain ⟨filled, d, hfill, hcount, hstores, hfills, hchunk⟩ :=
    hopen.exists_reports_fill h hpush hwf hslots hpos
  have hreports : (appendRun cell n).Reports c count d _ :=
    hopen.reports.bind (hreads.bind (hfill.bind (hcount.bind (Edit.reports_pure count d))))
  simp only [List.append_nil, List.nil_append, hopen.reportTo_eq hfills hchunk] at hreports
  refine ⟨d, hpos, hreports, hstores, hfills, ?_⟩
  -- fewer rows than were left fill the chunk up
  intro hlt i hi
  rw [hstores.chunkCapacity_eq]
  rw [hfills.size_eq] at hi
  rcases Nat.lt_succ_iff_lt_or_eq.1 hi with hi | rfl
  · rw [hfills.chunkAt_eq i hi.ne, hopen.len_chunkAt hi]
  · rw [hchunk, ← Chunk.length_slots, hslots, List.length_append, List.length_replicate,
      Chunk.length_slots]
    omega

end Opens

/-- An appended row is the last one, and what is reported can be read off from the container before
and the container after. -/
theorem exists_reports_append (h : c.Stores o s) (cell : Cell k) :
    ∃ d j, (append cell).Reports c () d (c.reportTo d) ∧ d.Stores o (s ++ [cell.slot]) ∧
      c.Fills d j := by
  obtain ⟨full, last, hopen⟩ := exists_opens h
  obtain ⟨chunk, hpush, hwf, hslots⟩ :=
    Chunk.exists_reports_push hopen.opened.last_wellFormed hopen.opened.last_lt cell
  obtain ⟨filled, d, hfill, hcount, hstores, hfills, hchunk⟩ :=
    hopen.exists_reports_fill h hpush hwf (List.replicate_one ▸ hslots) Nat.one_pos
  refine ⟨d, full.length, ?_, hstores, hfills⟩
  have hreports : (append cell).Reports c () d _ := hopen.reports.bind (hfill.bind hcount)
  rwa [List.append_nil, hopen.reportTo_eq hfills hchunk] at hreports

/-! ### The loop -/

lemma reportTo_self (c : Container k) : c.reportTo c = [] :=
  List.flatMap_eq_nil_iff.2 fun _ hj => chunkReport_eq_nil (List.mem_range.1 hj) rfl

/-- The loop adds its rows pass by pass. A chunk that a pass has filled up is not touched by later
ones, so that the reports of the passes are that of the whole. -/
lemma exists_appendManyFrom_eq (h : c.Stores o s) (cell : Cell k) (n : ℕ) :
    ∃ d, (∀ events, appendManyFrom cell n c events
        = ⟨.ok (), d, events ++ (c.reportTo d).toArray⟩) ∧
      d.Stores o (s ++ List.replicate n cell.slot) ∧ c.Grows d := by
  induction n using Nat.strong_induction_on generalizing c s with
  | _ n ih =>
    rcases Nat.eq_zero_or_pos n with rfl | hpos
    · refine ⟨c, fun events => ?_, by simpa using h, .refl c⟩
      rw [appendManyFrom, reportTo_self]
      simp
    · obtain ⟨full, last, hopen⟩ := exists_opens h
      obtain ⟨d, hcount, hrun, hd, hfills, hfull⟩ := hopen.exists_reports_appendRun h cell hpos
      have hle : min n last.values.remaining ≤ n := min_le_left _ _
      generalize min n last.values.remaining = count at hcount hrun hd hfull hle
      have hstep : ∀ events, appendManyFrom cell n c events
          = appendManyFrom cell (n - count) d (events ++ (c.reportTo d).toArray) := by
        intro events
        rw [appendManyFrom, if_neg hpos.ne', show appendRun cell n c = _ from hrun]
        exact if_neg hcount.ne'
      rcases hle.lt_or_eq with hlt | rfl
      · obtain ⟨e, hrest, he, hgrows⟩ := ih (n - count) (by omega) hd
        have hkeep : ∀ i < d.chunks.size, e.chunkAt i = d.chunkAt i := fun i hi =>
          hgrows.chunkAt_eq_of_full i (hfull hlt i hi)
        have hevents : (c.reportTo d).toArray ++ (d.reportTo e).toArray
            = (c.reportTo e).toArray := by
          rw [List.append_toArray, hfills.grows.reportTo_append hgrows hkeep]
        refine ⟨e, fun events => ?_, ?_, hfills.grows.trans hgrows⟩
        · rw [hstep, hrest, Array.append_assoc, hevents]
        · rwa [List.append_assoc, List.replicate_append_replicate, Nat.add_sub_cancel' hle] at he
      · refine ⟨d, fun events => ?_, hd, hfills.grows⟩
        rw [hstep, Nat.sub_self, appendManyFrom]
        rfl

/-- Equal rows are added at the end, and what is reported can be read off from the container before
and the container after. -/
theorem exists_reports_appendMany (h : c.Stores o s) (cell : Cell k) (n : ℕ) :
    ∃ d, (appendMany cell n).Reports c () d (c.reportTo d) ∧
      d.Stores o (s ++ List.replicate n cell.slot) ∧ c.Grows d := by
  obtain ⟨d, hloop, hd, hgrows⟩ := exists_appendManyFrom_eq h cell n
  refine ⟨d, ?_, hd, hgrows⟩
  rw [Edit.Reports, appendMany, hloop, Array.empty_append]

end Container

end Columnar
