import Columnar.Proofs.Container.Report
import Columnar.Proofs.Guarded
/-!
# Adding rows

A row, or as many equal rows as one chunk takes, is added in the same way to a container under
construction and to a finished one: the last chunk is opened, taken out, filled and put back.
Both ways of filling a container therefore lead to the same slots, a `Cell.slot` for each row. Many
equal rows are added in passes, one for each chunk; as an opened chunk has room for a row, every
pass adds one at least, and the passes come to an end.
-/

namespace Columnar

variable {k : Kind} {o : Options} {s : List (Slot k)}

namespace Builder

variable {b : Builder k}

/-- The container under construction holds the slots `s` under the options `o`. -/
structure Stores (b : Builder k) (o : Options) (s : List (Slot k)) : Prop where
  options_eq : b.options = o
  packed : Packed (o.chunkCapacity k) b.chunks.toList s
  len_eq : b.len = s.length

lemma stores_empty (o : Options) : ({ options := o } : Builder k).Stores o [] :=
  ⟨rfl, packed_nil _, rfl⟩

/-- Opening a chunk makes room in the last one. -/
lemma exists_openChunk (h : b.Stores o s) : ∃ full last,
    b.openChunk = { b with chunks := (full ++ [last]).toArray } ∧
      Opened (o.chunkCapacity k) full last s := by
  obtain rfl := h.options_eq
  obtain ⟨full, last, hchunks, hopened⟩ := h.packed.opened (b.options.chunkCapacity_pos k)
  refine ⟨full, last, ?_, hopened⟩
  rw [← hchunks, openChunk, hasRoom, chunkCapacity]
  split_ifs <;> rfl

lemma splitLast_concat (full : List (Chunk k)) (last : Chunk k) (len : ℕ) (options : Options) :
    (splitLast ⟨(full ++ [last]).toArray, len, options⟩).1 = last ∧
      ∀ d, (splitLast ⟨(full ++ [last]).toArray, len, options⟩).2 d
        = ⟨(full ++ [d]).toArray, len, options⟩ := by
  simp [splitLast]

/-- A push opens a chunk and fills it. -/
lemma yields_push_of_opened {full : List (Chunk k)} {last chunk : Chunk k} {cell : Cell k}
    (hopen : b.openChunk = { b with chunks := (full ++ [last]).toArray })
    (hpush : (Chunk.push cell).Yields last () chunk) :
    (push cell).Yields b () ⟨(full ++ [chunk]).toArray, b.len + 1, b.options⟩ := by
  obtain ⟨hfst, hsnd⟩ := splitLast_concat full last b.len b.options
  have hwithin := Edit.Yields.within (m := Chunk.push cell) splitLast
    (s := { b with chunks := (full ++ [last]).toArray }) (by rw [hfst]; exact hpush)
  rw [hsnd, ← hopen] at hwithin
  exact (Edit.yields_updates openChunk b).bind (hwithin.bind (Edit.yields_updates _ _))

/-- A pushed row is the last one. -/
theorem yields_push (h : b.Stores o s) (cell : Cell k) :
    ∃ d, (push cell).Yields b () d ∧ d.Stores o (s ++ [cell.slot]) := by
  obtain ⟨full, last, hopen, hopened⟩ := exists_openChunk h
  obtain ⟨chunk, hpush, hwf, hslots⟩ :=
    Chunk.yields_push hopened.last_wellFormed hopened.last_lt cell
  refine ⟨_, yields_push_of_opened hopen hpush, ?_⟩
  constructor
  · exact h.options_eq
  · exact hopened.close hwf hslots (by simp)
  · simp [h.len_eq]

/-- The rows of a list are pushed one after the other. -/
theorem yields_pushAll (h : b.Stores o s) (rows : List (Cell k)) :
    ∃ d, (Edit.forEach rows push).Yields b () d ∧ d.Stores o (s ++ rows.map Cell.slot) :=
  Edit.yields_forEach (P := fun done (b : Builder k) => b.Stores o (s ++ done.map Cell.slot)) rows
    (fun done cell _ b _ hb => by simpa using yields_push hb cell) (by simpa using h)

/-- Every operation made of pushes keeps what has been said about the container so far. -/
lemma keeps_push (o : Options) (cell : Cell k) :
    (push cell).Keeps fun b => ∃ s, Stores b o s :=
  Edit.keeps_of_yields fun _ ⟨_, h⟩ =>
    have ⟨d, hd, hstores⟩ := yields_push h cell
    ⟨(), d, hd, _, hstores⟩

/-- A finished container holds the slots it was given, and its count of nulls is right. -/
lemma Stores.finish (h : b.Stores o s) : b.finish.Stores o s :=
  Container.Stores.recountNulls (c := ⟨b.chunks, b.len, 0, b.options⟩) h.options_eq h.packed
    h.len_eq

end Builder

namespace Container

/-- The rows of a list are stored one after the other. -/
theorem result_ofRows (rows : List (Cell k)) (o : Options) :
    ∃ c, (ofRows rows o).result = .ok c ∧ c.Stores o (rows.map Cell.slot) := by
  obtain ⟨b, hb, hstores⟩ := Builder.yields_pushAll (Builder.stores_empty o) rows
  refine ⟨b.finish, ?_, hstores.finish⟩
  rw [ofRows, Builder.build, Traced.result_bind, hb.result_runOn]
  rfl

lemma stores_of_result_ofRows {rows : List (Cell k)} {c : Container k}
    (h : (ofRows rows o).result = .ok c) : c.Stores o (rows.map Cell.slot) := by
  obtain ⟨d, hd, hstores⟩ := result_ofRows rows o
  rw [hd, Except.ok.injEq] at h
  exact h ▸ hstores

/-- Whatever pushes build a container, it holds some slots. -/
lemma stores_of_build {m : Edit (Builder k) Unit} {c : Container k}
    (hm : m.Keeps fun b => ∃ s, Builder.Stores b o s) (h : (Builder.build o m).result = .ok c) :
    ∃ s, c.Stores o s := by
  obtain ⟨b, hb, hc⟩ := Traced.result_bind_eq_ok.1 h
  obtain ⟨s, hs⟩ := hm _ ⟨[], Builder.stores_empty o⟩
  have hstate : (m { options := o }).state = b := by
    rw [Edit.runOn] at hb
    rcases hm : m { options := o } with ⟨_ | _, t, events⟩
    · rw [hm] at hb
      cases hb
    · rw [hm] at hb
      exact Except.ok.inj hb
  rw [hstate] at hs
  rw [Traced.result_pure, Except.ok.injEq] at hc
  exact ⟨s, hc ▸ hs.finish⟩

variable {c : Container k}

lemma stores_empty (o : Options) : (empty o : Container k).Stores o [] :=
  ⟨rfl, packed_nil _, rfl, rfl⟩

/-! ### A finished container -/

/-- An appended row is the last one. -/
theorem yields_append (h : c.Stores o s) (cell : Cell k) :
    ∃ d, (append cell).Yields c () d ∧ d.Stores o (s ++ [cell.slot]) := by
  obtain ⟨d, j, hreports, hstores, -⟩ := exists_reports_append h cell
  exact ⟨d, hreports.yields, hstores⟩

/-- Equal rows are added at the end, run by run. -/
theorem yields_appendMany (h : c.Stores o s) (cell : Cell k) (count : ℕ) :
    ∃ d, (appendMany cell count).Yields c () d ∧
      d.Stores o (s ++ List.replicate count cell.slot) := by
  obtain ⟨d, hreports, hstores, -⟩ := exists_reports_appendMany h cell count
  exact ⟨d, hreports.yields, hstores⟩

/-- A container of nulls. -/
theorem result_ofLen (len : ℕ) (o : Options) : ∃ c : Container k,
    (ofLen len o).result = .ok c ∧ c.Stores o (List.replicate len Slot.null) := by
  obtain ⟨c, hc, hstores⟩ := yields_appendMany (k := k) (stores_empty o) none len
  exact ⟨c, hc.result_runOn, by simpa using hstores⟩

/-! ### Passes of the loop -/

/-- The room in the last chunk. -/
def room? (c : Container k) : Option ℕ := do
  let last ← c.chunks[← sub? c.chunks.size 1]?
  sub? last.values.ceiling last.values.size

/-- Adding `n` equal rows to `c` pass by pass leaves `d`. Each pass opens a chunk and fills it with
as many rows as it has room for, or as are left to add; it takes in at least one. -/
inductive Passes (cell : Cell k) : ℕ → Container k → Container k → Prop
  | done (c : Container k) : Passes cell 0 c c
  | pass {n room : ℕ} {c opened next d : Container k} :
    openChunk.Yields c () opened → opened.room? = some room → 0 < min n room →
    (appendRun cell n).Yields c (min n room) next →
    Passes cell (n - min n room) next d → Passes cell n c d

/-- The room of an opened chunk is what is left below its ceiling. -/
lemma room?_eq {full : List (Chunk k)} {last : Chunk k}
    (h : Opened (o.chunkCapacity k) full last s) (c : Container k) :
    room? { c with chunks := (full ++ [last]).toArray } = some last.values.remaining := by
  have hroom : last.values.size ≤ last.values.ceiling := by
    rw [h.last_wellFormed.ceiling_eq]
    exact h.last_lt.le
  have hsize : sub? (full.length + 1) 1 = some full.length := sub?_eq_some (by omega)
  simp [room?, hsize, sub?_eq_some hroom, Buffer.remaining]

/-- An opened chunk has room for a row. -/
lemma exists_room (h : c.Stores o s) : ∃ opened room, openChunk.Yields c () opened ∧
    opened.room? = some room ∧ 0 < room := by
  obtain ⟨full, last, hopen⟩ := exists_opens h
  have hlast := hopen.opened.last_lt
  refine ⟨_, last.values.remaining, hopen.reports.yields, room?_eq hopen.opened c, ?_⟩
  rw [hopen.opened.remaining_eq]
  omega

/-- One pass: equal rows are added up to the end of the chunk that has been opened. -/
lemma exists_pass (h : c.Stores o s) (cell : Cell k) {n : ℕ} (hpos : 0 < n) :
    ∃ opened room next, openChunk.Yields c () opened ∧ opened.room? = some room ∧
      0 < min n room ∧ (appendRun cell n).Yields c (min n room) next ∧
      next.Stores o (s ++ List.replicate (min n room) cell.slot) := by
  obtain ⟨full, last, hopen⟩ := exists_opens h
  obtain ⟨d, hcount, hrun, hstores, -⟩ := hopen.exists_reports_appendRun h cell hpos
  exact ⟨_, _, d, hopen.reports.yields, room?_eq hopen.opened c, hcount, hrun.yields, hstores⟩

/-- Every pass takes in a row at least, so that there are passes for any number of rows, by
induction on the number of rows left to add. -/
lemma exists_passes (h : c.Stores o s) (cell : Cell k) (n : ℕ) :
    ∃ d, Passes cell n c d ∧ d.Stores o (s ++ List.replicate n cell.slot) := by
  induction n using Nat.strong_induction_on generalizing c s with
  | _ n ih =>
    rcases Nat.eq_zero_or_pos n with rfl | hpos
    · exact ⟨c, .done c, by simpa using h⟩
    · obtain ⟨opened, room, next, hopen, hroom, hlt, hrun, hnext⟩ := exists_pass h cell hpos
      obtain ⟨d, hpasses, hd⟩ := ih (n - min n room) (by omega) hnext
      refine ⟨d, .pass hopen hroom hlt hrun hpasses, ?_⟩
      rw [List.append_assoc, List.replicate_append_replicate,
        Nat.add_sub_cancel' (min_le_left _ _)] at hd
      exact hd

/-- The loop runs through the passes and ends. -/
lemma Passes.appendManyFrom_eq {cell : Cell k} {n : ℕ} {c d : Container k}
    (h : Passes cell n c d) (events : Array Event) :
    ∃ more, appendManyFrom cell n c events = ⟨.ok (), d, more⟩ := by
  induction h generalizing events with
  | done c =>
    rw [appendManyFrom]
    exact ⟨events, rfl⟩
  | @pass n room c opened next d _ _ hpos hrun _ ih =>
    obtain ⟨run, hrun⟩ := hrun
    obtain ⟨more, hrest⟩ := ih (events ++ run)
    refine ⟨more, ?_⟩
    rw [appendManyFrom, if_neg (by omega), hrun]
    simp only [hpos.ne', if_false]
    exact hrest

lemma Passes.yields {cell : Cell k} {n : ℕ} {c d : Container k} (h : Passes cell n c d) :
    (appendMany cell n).Yields c () d := h.appendManyFrom_eq #[]

end Container

end Columnar
