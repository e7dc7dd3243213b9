import Columnar.Proofs.Column.DistinctCount
import Columnar.Proofs.Column.Room
import Columnar.Proofs.Container.GuardedOperators
/-!
# No internal failure

Past the checks that it makes of its arguments, no operation on a reachable column can go wrong. No
row is refused for want of room; no chunk, no stored value and no flag is looked up where there is
none; no length and no count of nulls drops below zero; and the loop that adds equal rows gets on
with every pass and ends. All of this holds under any options, also where only one row goes into a
chunk.
-/

namespace Columnar

variable {k : Kind}

namespace Container

variable {o : Options} {s : List (Slot k)} {c : Container k}

/-- The operations on the container that look up chunks and flags return what their guarded forms
do. -/
structure StaysInBounds (c : Container k) : Prop where
  get : ∀ index, (c.get? index).Returns (c.get index)
  isValid : ∀ index, (c.isValid? index).Returns (c.isValid index)
  maxContiguousRun : ∀ start, (c.maxContiguousRun? start).Returns (c.maxContiguousRun start)
  exportRange : ∀ start count,
    (c.exportRange? start count).Returns (c.exportRange start count)
  set : ∀ index cell, (c.set? index cell).Returns ((set index cell).runOn c).result
  resize : ∀ newLen, c.resize? newLen = some (resize newLen c)
  binary : ∀ op (other : Column k), other.Reachable →
    (c.binary? op other.container).Returns ((binary op other.container).runOn c).result
  binaryScalar : ∀ op scalar reverse,
    (c.binaryScalar? op scalar reverse).Returns ((binaryScalar op scalar reverse).runOn c).result
  shift : ∀ op amount, (c.shift? op amount).Returns ((shift op amount).runOn c).result
  compare : ∀ op (other : Column k), other.Reachable →
    (compare? op c other.container).Returns (compare op c other.container).result
  compareScalar : ∀ op scalar,
    (compareScalar? op c scalar).Returns (compareScalar op c scalar).result

/-- The container takes any number of rows: an opened chunk has room for one, and adding many goes
through passes of which each adds one at least. -/
structure TakesRows (c : Container k) : Prop where
  room : ∃ opened room, openChunk.Yields c () opened ∧ opened.room? = some room ∧ 0 < room
  append : ∀ cell, (append cell c).result = .ok ()
  appendMany : ∀ cell count, (appendMany cell count c).result = .ok () ∧
    Passes cell count c (appendMany cell count c).state
  resize : ∀ newLen, (resize newLen c).result = .ok ()

lemma Stores.staysInBounds (h : c.Stores o s) : c.StaysInBounds where
  get := h.get?_returns
  isValid := h.isValid?_returns
  maxContiguousRun := h.maxContiguousRun?_returns
  exportRange := h.exportRange?_returns
  set := h.set?_returns
  resize := h.resize?_eq
  binary op other hother := by
    obtain ⟨o', t, h'⟩ := hother.sound
    exact binary?_returns h h' op
  binaryScalar := binaryScalar?_returns h
  shift := shift?_returns h
  compare op other hother := by
    obtain ⟨o', t, h'⟩ := hother.sound
    exact compare?_returns h h' op
  compareScalar := compareScalar?_returns h

lemma Stores.takesRows (h : c.Stores o s) : c.TakesRows where
  room := exists_room h
  append cell := by
    obtain ⟨d, hd, -⟩ := yields_append h cell
    exact hd.result
  appendMany cell count := by
    obtain ⟨d, hpasses, -⟩ := exists_passes h cell count
    rw [hpasses.yields.result, hpasses.yields.state]
    exact ⟨rfl, hpasses⟩
  resize newLen := by
    obtain ⟨d, hd, -⟩ := yields_resize h newLen
    exact hd.result

/-- The nulls are among the rows. -/
lemma Stores.sub?_nullCount (h : c.Stores o s) : sub? c.len c.nullCount = some c.values.length := by
  have hle : c.nullCount ≤ c.len := by
    rw [h.nullCount_eq, h.len_eq]
    exact List.countP_le_length
  rw [sub?_eq_some hle, h.holds.len_sub_nullCount]

end Container

namespace Column

/-- Nothing that is done to the column goes wrong from within. -/
structure Robust (c : Column k) : Prop where
  neverFull : c.NeverFull
  anyNeverFull : (AnyColumn.mk k c).NeverFull
  staysInBounds : c.container.StaysInBounds
  takesRows : c.container.TakesRows
  /-- The number of rows with a value, by which statistics and sorting are sized. -/
  validRows : sub? c.len c.nullCount = some c.values.length

/-- Under any options, columns of every kind can be built from any rows, and whatever is done to
them, nothing goes wrong from within. -/
theorem robust_of_reachable (k : Kind) :
    (∀ o, MakesRoom k o) ∧ ∀ c : Column k, c.Reachable → c.Robust := by
  refine ⟨makesRoom k, fun c hc => ?_⟩
  obtain ⟨o, s, h⟩ := hc.sound
  constructor
  · exact hc.neverFull
  · exact AnyColumn.neverFull ⟨k, c⟩ hc
  · exact h.staysInBounds
  · exact h.takesRows
  · exact h.sub?_nullCount

/-- Three rows in chunks of one, of which the last is dropped again. -/
theorem robust_of_single_rows : ∃ c : Column .int32,
    (ofRows "a" [some 1, none, some 3] { chunkBytes := 0 }).result = .ok c ∧
      c.container.chunks.size = 3 ∧ ((Mutation.resize 2).run c).state.container.chunks.size = 2 ∧
      ((Mutation.resize 2).run c).state.Robust := by
  refine ⟨_, rfl, rfl, by decide, (robust_of_reachable .int32).2 _ (.mutate _ ?_ nofun)⟩
  exact .ofRows "a" [some 1, none, some 3] { chunkBytes := 0 } rfl

end Column

end Columnar
