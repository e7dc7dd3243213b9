import Columnar.Proofs.Column.Reachable
import Columnar.Proofs.Container.Report
/-!
# Equal rows, one by one and all at once

Many equal rows can be appended one after the other or all at once. Both leave the same contents,
and both report the same chunks as begun, each with its number and the number of rows before it.
Where one row after the other lets an allocation grow step by step, all at once lets that of each
chunk grow once.
-/

namespace Columnar

variable {k : Kind} {o : Options} {s t : List (Slot k)}

namespace Container

variable {c d e single batch : Container k} {cell : Cell k} {n : ℕ}

/-! ### The levels of a report -/

/-- The events of a report that are of a level. -/
def linesAt (level : Level) (events : List Event) : List Event := events.filter (·.level = level)

/-- The reports that chunks were begun, when a container comes to have `n` of them. -/
def rolloversTo (c : Container k) (n : ℕ) : List Event := (List.range n).flatMap c.rollover

lemma linesAt_rollover (c : Container k) (j : ℕ) :
    linesAt .debug (c.rollover j) = c.rollover j ∧ linesAt .trace (c.rollover j) = [] := by
  rw [rollover]
  split_ifs <;> simp [linesAt, Event.level]

lemma linesAt_growthTo (c d : Chunk k) :
    linesAt .debug (c.growthTo d) = [] ∧ linesAt .trace (c.growthTo d) = c.growthTo d := by
  rw [Chunk.growthTo]
  split_ifs <;> simp [linesAt, Event.level]

lemma linesAt_flatMap (level : Level) (f : ℕ → List Event) (l : List ℕ) :
    linesAt level (l.flatMap f) = l.flatMap fun i => linesAt level (f i) := by
  rw [linesAt, List.filter_flatMap]
  rfl

lemma linesAt_append (level : Level) (l m : List Event) :
    linesAt level (l ++ m) = linesAt level l ++ linesAt level m := List.filter_append ..

lemma linesAt_debug_reportTo (c d : Container k) :
    linesAt .debug (c.reportTo d) = c.rolloversTo d.chunks.size := by
  rw [reportTo, linesAt_flatMap, rolloversTo]
  refine List.flatMap_congr fun j _ => ?_
  rw [chunkReport, linesAt_append, (linesAt_rollover c j).1, (linesAt_growthTo _ _).1,
    List.append_nil]

lemma linesAt_trace_reportTo (c d : Container k) : linesAt .trace (c.reportTo d)
    = (List.range d.chunks.size).flatMap fun j => (c.chunkAt j).growthTo (d.chunkAt j) := by
  rw [reportTo, linesAt_flatMap]
  refine List.flatMap_congr fun j _ => ?_
  rw [chunkReport, linesAt_append, (linesAt_rollover c j).2, (linesAt_growthTo _ _).2,
    List.nil_append]

lemma Grows.rolloversTo_append (h : c.Grows d) (h' : d.Grows e) :
    c.rolloversTo d.chunks.size ++ d.rolloversTo e.chunks.size = c.rolloversTo e.chunks.size :=
  flatMap_range_append h'.size_le (fun _ _ => rfl) (fun _ => rollover_eq_nil) fun _ => h.rollover_eq

lemma rolloversTo_size (c : Container k) : c.rolloversTo c.chunks.size = [] :=
  List.flatMap_eq_nil_iff.2 fun _ hj => rollover_eq_nil (List.mem_range.1 hj)

/-- Rows appended one by one: each chunk that they begin is reported, by induction on their
number. -/
theorem exists_reports_appends (h : c.Stores o s) (cell : Cell k) (n : ℕ) :
    ∃ d events, (Edit.forEach (List.replicate n cell) append).Reports c () d events ∧
      d.Stores o (s ++ List.replicate n cell.slot) ∧ c.Grows d ∧
      linesAt .debug events = c.rolloversTo d.chunks.size := by
  induction n generalizing c s with
  | zero =>
    refine ⟨c, [], Edit.reports_pure () c, by simpa using h, .refl c, ?_⟩
    rw [rolloversTo_size]
    rfl
  | succ n ih =>
    obtain ⟨d, j, happend, hd, hfills⟩ := exists_reports_append h cell
    obtain ⟨e, events, hreports, he, hgrows, hlines⟩ := ih hd
    refine ⟨e, c.reportTo d ++ events, ?_, ?_, hfills.grows.trans hgrows, ?_⟩
    · rw [List.replicate_succ, Edit.forEach_cons]
      exact happend.bind hreports
    · rw [List.replicate_succ]
      simpa using he
    · rw [linesAt_append, linesAt_debug_reportTo, hlines, hfills.grows.rolloversTo_append hgrows]

/-! ### Both runs -/

/-- A container `c` with the same rows added to it one by one and all at once: what these leave
behind, and what they report. -/
structure Batched (c single batch : Container k) (singly batched : List Event) : Prop where
  /-- The chunks have the same values, also beneath nulls, and the same bytes for masks. -/
  contents_eq : single.chunks.toList.map (fun chunk => (chunk.values.values, chunk.validity))
    = batch.chunks.toList.map fun chunk => (chunk.values.values, chunk.validity)
  len_eq : single.len = batch.len
  nullCount_eq : single.nullCount = batch.nullCount
  options_eq : single.options = batch.options
  /-- The same chunks are reported as begun, in the same order. -/
  rollovers_eq : linesAt .debug singly = linesAt .debug batched
  /-- These are the chunks that the container did not have, except for the first one of all. -/
  mem_rollovers : ∀ line, line ∈ linesAt .debug batched ↔
    ∃ j, 1 ≤ j ∧ c.chunks.size ≤ j ∧ j < batch.chunks.size ∧
      line = .rolledOver k j (j * c.chunkCapacity)
  /-- The row that is named is the number of rows in the chunks before. -/
  rows_before : ∀ j < batch.chunks.size,
    ((batch.chunks.toList.take j).map Chunk.len).sum = j * c.chunkCapacity
  /-- All at once, what is reported of a chunk is that it was begun and that its allocation has
  grown, from what it was to what it is. -/
  batched_eq : batched = c.reportTo batch
  /-- A chunk to which no row was added is as it was, so that nothing is reported of it. -/
  unwritten : ∀ j, (batch.chunkAt j).len = (c.chunkAt j).len → batch.chunkAt j = c.chunkAt j
  /-- Growth is reported no more often than there are chunks to which rows were added. -/
  growths_le : (linesAt .trace batched).length ≤
    (List.range batch.chunks.size).countP fun j => (c.chunkAt j).len < (batch.chunkAt j).len

/-- The chunks that are begun. -/
lemma mem_rolloversTo_iff {line : Event} : line ∈ c.rolloversTo n ↔
    ∃ j, 1 ≤ j ∧ c.chunks.size ≤ j ∧ j < n ∧ line = .rolledOver k j (j * c.chunkCapacity) := by
  rw [rolloversTo, List.mem_flatMap]
  refine exists_congr fun j => ?_
  rw [List.mem_range, rollover]
  split_ifs with h
  · rw [List.mem_singleton]
    constructor
    · rintro ⟨hlt, hline⟩
      exact ⟨h.2, h.1, hlt, hline⟩
    · rintro ⟨-, -, hlt, hline⟩
      exact ⟨hlt, hline⟩
  · constructor
    · rintro ⟨-, hmem⟩
      cases hmem
    · rintro ⟨hpos, hle, -, -⟩
      exact absurd ⟨hle, hpos⟩ h

/-- A chunk is reported to have grown once, and only if rows were added to it. -/
lemma Grows.length_growthTo_le (h : c.Grows d) (j : ℕ) :
    ((c.chunkAt j).growthTo (d.chunkAt j)).length
      ≤ if (c.chunkAt j).len < (d.chunkAt j).len then 1 else 0 := by
  rcases h.eq_or_len_lt j with heq | hlt
  · rw [heq, Chunk.growthTo_self]
    exact Nat.zero_le _
  · rw [if_pos hlt, Chunk.growthTo]
    split_ifs
    · exact Nat.zero_le 1
    · exact le_rfl

lemma Grows.length_growths_le (h : c.Grows d) (chunks : List ℕ) :
    (chunks.flatMap fun j => (c.chunkAt j).growthTo (d.chunkAt j)).length ≤
      chunks.countP fun j => (c.chunkAt j).len < (d.chunkAt j).len := by
  induction chunks with
  | nil => exact le_rfl
  | cons j chunks ih =>
    rw [List.flatMap_cons, List.length_append, List.countP_cons, Nat.add_comm]
    exact Nat.add_le_add ih (by simpa using h.length_growthTo_le j)

/-- The rows before chunk `j` fill `j` chunks. -/
lemma Stores.sum_len_take (h : c.Stores o s) {j : ℕ} (hj : j < c.chunks.size) :
    ((c.chunks.toList.take j).map Chunk.len).sum = j * o.chunkCapacity k := by
  rw [← length_flatMap_slots]
  exact (h.packed.split h.capacity_pos (by simpa using hj)).2

/-- Two runs that lead to the same slots, one by one and all at once. -/
theorem Stores.batched (h : c.Stores o s) (hsingle : single.Stores o t) (hbatch : batch.Stores o t)
    (hgrows : c.Grows batch) {singly : List Event}
    (hlines : linesAt .debug singly = c.rolloversTo single.chunks.size) :
    c.Batched single batch singly (c.reportTo batch) := by
  obtain ⟨hcontents, hlen, hnulls, hoptions⟩ := hsingle.contents_unique hbatch
  have hsize : single.chunks.size = batch.chunks.size := by
    have := congrArg List.length hcontents
    simpa using this
  have hdebug := linesAt_debug_reportTo c batch
  constructor
  · exact hcontents
  · exact hlen
  · exact hnulls
  · exact hoptions
  · rw [hlines, hdebug, hsize]
  · intro line
    rw [hdebug, mem_rolloversTo_iff]
  · intro j hj
    rw [hbatch.sum_len_take hj, h.chunkCapacity_eq]
  · rfl
  · intro j hj
    exact (hgrows.eq_or_len_lt j).resolve_right fun hlt => hlt.ne' hj
  · rw [linesAt_trace_reportTo]
    exact hgrows.length_growths_le _

end Container

/-- **Adding equal rows all at once reports what adding them one by one does**, except that the
allocation of each chunk grows once, and leaves the same contents. Both succeed. -/
theorem Column.Reachable.appends_batched {c : Column k} (h : c.Reachable) (cell : Cell k) (n : ℕ) :
    ∃ single batch singly batched,
      (Edit.forEach (List.replicate n cell) Container.append).Reports c.container () single singly ∧
      (Container.appendMany cell n).Reports c.container () batch batched ∧
      c.container.Batched single batch singly batched := by
  obtain ⟨o, s, hstores⟩ := h.sound
  obtain ⟨single, singly, hone, hsingle, -, hlines⟩ :=
    Container.exists_reports_appends hstores cell n
  obtain ⟨batch, hall, hbatch, hgrows⟩ := Container.exists_reports_appendMany hstores cell n
  exact ⟨single, batch, singly, _, hone, hall, hstores.batched hsingle hbatch hgrows hlines⟩

/-- Four nulls after three rows, in chunks of two rows. -/
theorem Column.appends_batched_of_three_rows : ∃ c : Column .int32,
    (ofRows "a" [some 1, none, some 3] (.withChunkRows .int32 2)).result = .ok c ∧
      ∃ single batch singly batched,
        (Edit.forEach (List.replicate 4 none) Container.append).Reports
          c.container () single singly ∧
        (Container.appendMany none 4).Reports c.container () batch batched ∧
        c.container.Batched single batch singly batched :=
  ⟨_, rfl, Reachable.appends_batched
    (.ofRows "a" [some 1, none, some 3] (.withChunkRows .int32 2) rfl) none 4⟩

end Columnar
