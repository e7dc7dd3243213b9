import Columnar.Kind
/-!
# Storage options

A column is cut into chunks of bounded byte size. The options name that bound; `chunkCapacity`
turns it into a number of rows for a kind. The capacity is never zero, so that a column can always
take another row, whatever the bound.
-/

namespace Columnar

/-- The largest byte length a chunk may have: the largest signed 32-bit number. -/
def maxChunkBytes : Nat := 0x7FFFFFFF

/-- Storage options shared by all chunks of a column. -/
structure Options where
  /-- The byte ceiling of one chunk. Larger values count as `Columnar.maxChunkBytes`. -/
  chunkBytes : Nat := maxChunkBytes
deriving DecidableEq, Repr, Inhabited

namespace Options

/-- Options under which a chunk of kind `k` holds at most `rows` rows. -/
def withChunkRows (k : Kind) (rows : Nat) : Options where
  chunkBytes := min (rows * k.width) maxChunkBytes

/-- The number of rows of kind `k` in a full chunk; at least one. -/
def chunkCapacity (o : Options) (k : Kind) : Nat :=
  max (min o.chunkBytes maxChunkBytes / k.width) 1

theorem chunkCapacity_pos (o : Options) (k : Kind) : 0 < o.chunkCapacity k :=
  Nat.lt_of_lt_of_le Nat.one_pos (Nat.le_max_right ..)

/-- A full chunk stays within the largest byte length. -/
theorem chunkCapacity_mul_width_le (o : Options) (k : Kind) :
    o.chunkCapacity k * k.width ≤ maxChunkBytes := by
  unfold chunkCapacity
  rcases Nat.le_total (min o.chunkBytes maxChunkBytes / k.width) 1 with h | h
  · rw [Nat.max_eq_right h]
    cases k <;> decide
  · rw [Nat.max_eq_left h]
    exact Nat.le_trans (Nat.div_mul_le_self _ _) (Nat.min_le_right _ _)

end Options

end Columnar
