import Columnar.Container.Compare
import Columnar.Proofs.Container.Guarded
import Columnar.Proofs.Container.Operators
/-!
# Guarded operators

The guarded forms of the operators on two containers and on a container and a scalar. Their loops
work through the chunks, side by side where there are two, and read every slot at its offset; the
results are written back only over as many values, and masks are combined only if they are of one
length. Once the layouts have been found to agree, no guard is hit.
-/

namespace Columnar

variable {k : Kind}

/-- A value, or the error that stands for its absence. -/
def orError {α : Type} (e : ColumnError) : Option α → Except ColumnError α
  | some a => .ok a
  | none => .error e

/-- Combining stored values is combining the values of slots. -/
lemma Chunk.zipWith_eq (f : k.Value → k.Value → k.Value) (c d : Chunk k) : zipWith f c d
    = { c.withValues ((c.slots.zip d.slots).map fun (x, y) => f x.1 y.1).toArray with
        validity := c.validity.and d.validity } := by
  have hvalues : c.values.values.zipWith f d.values.values
      = ((c.slots.zip d.slots).map fun (x, y) => f x.1 y.1).toArray := by
    apply Array.toList_inj.1
    rw [toList_zipWith_values, List.toList_toArray, List.map_zip_eq_zipWith]
    rfl
  rw [zipWith, hvalues]
  rfl

namespace Container

variable {β : Type} {o o' : Options} {s t : List (Slot k)} {left right c : Container k}

/-! ### Working through the chunks -/

/-- What a loop makes of the slots of each chunk. -/
def eachChunk? (c : Container k) (loop : List (Slot k) → β) : Option (List β) :=
  c.chunks.toList.mapM fun chunk => chunk.slots?.map loop

/-- What a loop makes of the slots of each pair of chunks. -/
def eachPair? (left right : Container k) (loop : List (Slot k × Slot k) → β) : Option (List β) :=
  (chunkPairs left right).mapM fun (l, r) => (l.slotPairs? r).map loop

/-- The container with other values in each chunk. -/
def replaceEach? (c : Container k) (values : List (Array k.Value)) : Option (Container k) := do
  let chunks ← (c.chunks.toList.zipWith Chunk.replace? values).mapM id
  return { c with chunks := chunks.toArray }

/-- The container with other values in each chunk and the rows that are null in neither operand. -/
def replaceBoth? (left right : Container k) (values : List (Array k.Value)) :
    Option (Container k) := do
  let chunks ← ((chunkPairs left right).zipWith (fun (l, r) => l.replaceBoth? r) values).mapM id
  recount? { left with chunks := chunks.toArray }

lemma eachChunk?_eq (h : c.Stores o s) (loop : List (Slot k) → β) :
    c.eachChunk? loop = some (c.chunks.toList.map fun chunk => loop chunk.slots) := by
  refine mapM_eq_some fun chunk hc => ?_
  rw [(h.packed.wellFormed chunk hc).slots?_eq]
  rfl

/-- Chunks side by side are well-formed, and have as many rows if the containers are laid out
alike. -/
lemma Stores.of_mem_chunkPairs (hl : left.Stores o s) (hr : right.Stores o' t)
    (heq : left.sizes = right.sizes) {p : Chunk k × Chunk k} (hp : p ∈ chunkPairs left right) :
    p.1.WellFormed (o.chunkCapacity k) ∧ p.2.WellFormed (o'.chunkCapacity k) ∧
      p.1.len = p.2.len := by
  obtain ⟨i, hi, rfl⟩ := List.mem_iff_getElem.1 hp
  rw [chunkPairs, List.length_zip] at hi
  have hli : i < left.chunks.toList.length := by omega
  have hri : i < right.chunks.toList.length := by omega
  have hlen : left.sizes[i]? = right.sizes[i]? := by rw [heq]
  simp only [sizes, List.getElem?_map, List.getElem?_eq_getElem hli,
    List.getElem?_eq_getElem hri, Option.map_some, Option.some.injEq] at hlen
  simp only [chunkPairs, List.getElem_zip]
  exact ⟨hl.packed.wellFormed _ (List.getElem_mem hli),
    hr.packed.wellFormed _ (List.getElem_mem hri), hlen⟩

lemma eachPair?_eq (hl : left.Stores o s) (hr : right.Stores o' t) (heq : left.sizes = right.sizes)
    (loop : List (Slot k × Slot k) → β) : left.eachPair? right loop
      = some ((chunkPairs left right).map fun p => loop (p.1.slots.zip p.2.slots)) := by
  refine mapM_eq_some fun p hp => ?_
  obtain ⟨hwf, hwf', hlen⟩ := hl.of_mem_chunkPairs hr heq hp
  show (p.1.slotPairs? p.2).map loop = _
  rw [hwf.slotPairs?_eq hwf' hlen]
  rfl

lemma replaceEach?_eq (c : Container k) {g : Chunk k → Array k.Value}
    (hg : ∀ chunk ∈ c.chunks.toList, (g chunk).size = chunk.len) :
    c.replaceEach? (c.chunks.toList.map g) = some { c with
      chunks := (c.chunks.toList.map fun chunk => chunk.withValues (g chunk)).toArray } := by
  have hchunks : c.chunks.toList.mapM (fun chunk => chunk.replace? (g chunk))
      = some (c.chunks.toList.map fun chunk => chunk.withValues (g chunk)) :=
    mapM_eq_some fun chunk hc => if_pos (hg chunk hc)
  rw [replaceEach?, List.zipWith_map_right, List.zipWith_self, List.mapM_map]
  show (c.chunks.toList.mapM (fun chunk => chunk.replace? (g chunk)) >>= fun chunks => some _) = _
  rw [hchunks]
  rfl

lemma replaceBoth?_eq (hl : left.Stores o s) (hr : right.Stores o' t)
    (heq : left.sizes = right.sizes) {g : Chunk k × Chunk k → Array k.Value}
    (hg : ∀ p ∈ chunkPairs left right, (g p).size = p.1.len) :
    left.replaceBoth? right ((chunkPairs left right).map g) = some (recountNulls { left with
      chunks := ((chunkPairs left right).map fun p =>
        { p.1.withValues (g p) with validity := p.1.validity.and p.2.validity }).toArray }) := by
  have hchunks : (chunkPairs left right).mapM (fun p => p.1.replaceBoth? p.2 (g p))
      = some ((chunkPairs left right).map fun p =>
        { p.1.withValues (g p) with validity := p.1.validity.and p.2.validity }) := by
    refine mapM_eq_some fun p hp => ?_
    obtain ⟨hwf, hwf', hlen⟩ := hl.of_mem_chunkPairs hr heq hp
    exact hwf.replaceBoth?_eq hwf' hlen (hg p hp)
  rw [replaceBoth?, List.zipWith_map_right, List.zipWith_self, List.mapM_map]
  show ((chunkPairs left right).mapM (fun p => p.1.replaceBoth? p.2 (g p)) >>= fun chunks =>
    recount? _) = _
  rw [hchunks]
  refine recount?_eq fun chunk hc => ?_
  obtain ⟨p, hp, rfl⟩ := List.mem_map.1 hc
  obtain ⟨hwf, hwf', hlen⟩ := hl.of_mem_chunkPairs hr heq hp
  exact hwf.validity.and hwf'.validity (by rw [hwf.len_validity, hwf'.len_validity, hlen])

/-! ### Two containers -/

/-- `Container.checkDivisors`. -/
def checkDivisors? (left right : Container k) : Guarded Unit := do
  let found ← left.eachPair? right fun pairs =>
    pairs.any fun ((_, validA), (b, validB)) => Kind.Value.isZero b && validA && validB
  if found.any id then throw (.divideByZero k)

/-- `Container.zipInPlace`. -/
def zipInPlace? (f : k.Value → k.Value → k.Value) (left right : Container k) :
    Option (Container k) := do
  let values ← left.eachPair? right fun pairs => (pairs.map fun (x, y) => f x.1 y.1).toArray
  left.replaceBoth? right values

/-- `Container.zipCheckedInPlace`. -/
def zipCheckedInPlace? (f : k.Value → k.Value → Option k.Value) (missing : ColumnError)
    (left right : Container k) : Guarded (Container k) := do
  let results ← left.eachPair? right fun pairs => do
    let results ← pairs.mapM fun ((a, validA), (b, validB)) =>
      if validA && validB then f a b else some k.zero
    return results.toArray
  let staged ← orError missing (results.mapM id)
  left.replaceBoth? right staged

/-- `Container.binary`. -/
def binary? (op : BinaryOp) (left right : Container k) : Guarded (Container k) :=
  match k.arithmetic, op with
  | .wrapping ops, .arithmetic op => do
    checkLayout left right
    if op.isDivision then left.checkDivisors? right
    left.zipInPlace? (ops.guarded op) right
  | .wrapping ops, .bitwise op => do
    checkLayout left right
    left.zipInPlace? (ops.bitwise op) right
  | .rounding ops, .arithmetic op => do
    checkLayout left right
    left.zipInPlace? (ops op) right
  | .checked ops, .arithmetic op => do
    checkLayout left right
    if op.isDivision then left.checkDivisors? right
    left.zipCheckedInPlace? (ops op) (.overflow k (.arithmetic op)) right
  | .logical ops, .bitwise op => do
    checkLayout left right
    left.zipInPlace? (ops op) right
  | _, op => throw (.unsupportedOperation k (.binary op))

section

variable (hl : left.Stores o s) (hr : right.Stores o' t) (heq : left.sizes = right.sizes)

include hl hr heq

lemma checkDivisors?_returns :
    (left.checkDivisors? right).Returns (checkDivisors left right) := by
  refine (Guarded.returns_some (eachPair?_eq hl hr heq _)).ok_bind ?_
  rw [checkDivisors, List.any_map]
  exact Guarded.returns_ite_throw _ _

lemma zipInPlace?_eq (f : k.Value → k.Value → k.Value) :
    left.zipInPlace? f right = some (zipInPlace f right left).state := by
  rw [zipInPlace?, eachPair?_eq hl hr heq]
  refine (replaceBoth?_eq hl hr heq fun p hp => ?_).trans ?_
  · obtain ⟨-, -, hlen⟩ := hl.of_mem_chunkPairs hr heq hp
    simp [hlen]
  · have hchunks : left.chunks.zipWith (Chunk.zipWith f) right.chunks
        = ((chunkPairs left right).map fun p => Chunk.zipWith f p.1 p.2).toArray := by
      apply Array.toList_inj.1
      rw [Array.toList_zipWith, List.toList_toArray, chunkPairs, List.map_zip_eq_zipWith]
      rfl
    simp only [zipInPlace, Edit.updates, hchunks, Chunk.zipWith_eq]

lemma zipCheckedInPlace?_returns (f : k.Value → k.Value → Option k.Value) (missing : ColumnError) :
    (left.zipCheckedInPlace? f missing right).Returns
      ((zipCheckedInPlace f right missing).runOn left).result := by
  refine (Guarded.returns_some (eachPair?_eq hl hr heq _)).ok_bind ?_
  rw [List.mapM_map]
  have hrun : ((zipCheckedInPlace f right missing).runOn left).result = _ :=
    Edit.result_runOn_checks_bind _ _ left
  rw [hrun]
  show Guarded.Returns (do
    let staged ← orError missing ((chunkPairs left right).mapM fun (l, r) => l.zipChecked? f r)
    left.replaceBoth? right staged) _
  have hstaged := mapM_zipChecked?_eq_ite hl hr heq f
  by_cases hany : ((s.zip t).any fun p => Slot.lacks f p.1 p.2) = true
  · rw [if_pos hany] at hstaged
    rw [hstaged]
    exact Guarded.returns_throw missing
  · rw [if_neg hany] at hstaged
    rw [hstaged]
    refine (Guarded.returns_except _).ok_bind (Guarded.returns_some ?_)
    refine (replaceBoth?_eq hl hr heq fun p hp => ?_).trans ?_
    · obtain ⟨-, -, hlen⟩ := hl.of_mem_chunkPairs hr heq hp
      simp [hlen]
    · simp only [List.zipWith_map_right, List.zipWith_self]

/-- Past the check for zero divisors. -/
lemma checkDivisors?_bind_returns {x : Guarded (Container k)} {m : Edit (Container k) Unit}
    (hx : x.Returns (m.runOn left).result) :
    Guarded.Returns (do left.checkDivisors? right; x)
      ((Edit.checks (fun left => checkDivisors left right) >>= fun _ => m).runOn left).result := by
  rw [Edit.result_runOn_checks_bind]
  exact (checkDivisors?_returns hl hr heq).bind fun _ _ => hx

end

/-- Past the check of the layouts, they agree. -/
lemma checkLayout_bind_returns (hl : left.Stores o s) (hr : right.Stores o' t)
    {x : Guarded (Container k)} {m : Edit (Container k) Unit}
    (hx : left.sizes = right.sizes → x.Returns (m.runOn left).result) :
    Guarded.Returns (do checkLayout left right; x)
      ((Edit.checks (fun left => checkLayout left right) >>= fun _ => m).runOn left).result := by
  rw [Edit.result_runOn_checks_bind]
  exact (Guarded.returns_except _).bind fun _ hok => hx (hl.sizes_eq_of_checkLayout hr hok)

theorem binary?_returns (hl : left.Stores o s) (hr : right.Stores o' t) (op : BinaryOp) :
    (left.binary? op right).Returns ((binary op right).runOn left).result := by
  rcases harith : k.arithmetic with ops | ops | ops | ops <;> rcases op with op | op <;>
    simp only [binary?, binary, harith]
  case wrapping.arithmetic =>
    refine checkLayout_bind_returns hl hr fun heq => ?_
    have hzip := Guarded.returns_some (zipInPlace?_eq hl hr heq (ops.guarded op))
    split_ifs
    · exact checkDivisors?_bind_returns hl hr heq hzip
    · exact hzip
  case checked.arithmetic =>
    refine checkLayout_bind_returns hl hr fun heq => ?_
    have hzip := zipCheckedInPlace?_returns hl hr heq (ops op) (.overflow k (.arithmetic op))
    split_ifs
    · exact checkDivisors?_bind_returns hl hr heq hzip
    · exact hzip
  case wrapping.bitwise =>
    exact checkLayout_bind_returns hl hr fun heq =>
      Guarded.returns_some (zipInPlace?_eq hl hr heq (ops.bitwise op))
  case rounding.arithmetic | logical.bitwise =>
    exact checkLayout_bind_returns hl hr fun heq =>
      Guarded.returns_some (zipInPlace?_eq hl hr heq (ops op))
  all_goals exact Guarded.returns_throw _

/-! ### A container and a scalar -/

/-- `Container.checkScalarDivisor`. -/
def checkScalarDivisor? (c : Container k) (scalar : k.Value) (reverse : Bool) :
    Guarded Unit := do
  let found ← c.eachChunk? fun slots => slots.any fun (a, valid) => Kind.Value.isZero a && valid
  if (if reverse then found.any id else Kind.Value.isZero scalar && decide (c.nullCount < c.len))
    then throw (.divideByZero k)

/-- `Container.mapInPlace`. -/
def mapInPlace? (f : k.Value → k.Value) (c : Container k) : Option (Container k) := do
  let values ← c.eachChunk? fun slots => (slots.map fun (a, _) => f a).toArray
  c.replaceEach? values

/-- `Container.mapCheckedInPlace`. -/
def mapCheckedInPlace? (f : k.Value → Option k.Value) (missing : ColumnError) (c : Container k) :
    Guarded (Container k) := do
  let results ← c.eachChunk? fun slots => do
    let results ← slots.mapM fun (a, valid) => if valid then f a else some a
    return results.toArray
  let staged ← orError missing (results.mapM id)
  c.replaceEach? staged

/-- `Container.binaryScalar`. -/
def binaryScalar? (op : BinaryOp) (scalar : k.Value) (reverse : Bool) (c : Container k) :
    Guarded (Container k) :=
  match k.arithmetic, op with
  | .wrapping ops, .arithmetic op => do
    if op.isDivision then c.checkScalarDivisor? scalar reverse
    c.mapInPlace? (withScalar (ops.guarded op) scalar reverse)
  | .wrapping ops, .bitwise op => c.mapInPlace? (withScalar (ops.bitwise op) scalar reverse)
  | .rounding ops, .arithmetic op => c.mapInPlace? (withScalar (ops op) scalar reverse)
  | .checked ops, .arithmetic op => do
    if op.isDivision then c.checkScalarDivisor? scalar reverse
    c.mapCheckedInPlace? (withScalar (ops op) scalar reverse) (.overflow k (.arithmetic op))
  | .logical ops, .bitwise op => c.mapInPlace? (withScalar (ops op) scalar reverse)
  | _, op => throw (.unsupportedOperation k (.binary op))

/-- `Container.shift`. -/
def shift? (op : ShiftOp) (amount : Int32) (c : Container k) : Guarded (Container k) :=
  match k.arithmetic with
  | .wrapping ops => c.mapInPlace? fun a => ops.shift op a (ops.places amount)
  | _ => throw (.unsupportedOperation k (.shift op))

section

variable (h : c.Stores o s)

include h

lemma checkScalarDivisor?_returns (scalar : k.Value) (reverse : Bool) :
    (c.checkScalarDivisor? scalar reverse).Returns (c.checkScalarDivisor scalar reverse) := by
  refine (Guarded.returns_some (eachChunk?_eq h _)).ok_bind ?_
  rw [checkScalarDivisor, List.any_map, ← Array.any_toList]
  exact Guarded.returns_ite_throw _ _

lemma mapInPlace?_eq (f : k.Value → k.Value) :
    c.mapInPlace? f = some (mapInPlace f c).state := by
  rw [mapInPlace?, eachChunk?_eq h]
  refine (replaceEach?_eq c fun chunk _ => by simp).trans ?_
  have hchunks : c.chunks.map (fun chunk => chunk.withValues (chunk.values.values.map f))
      = (c.chunks.toList.map fun chunk =>
        chunk.withValues (chunk.slots.map fun x => f x.1).toArray).toArray := by
    apply Array.toList_inj.1
    rw [Array.toList_map, List.toList_toArray]
    refine List.map_congr_left fun chunk _ => congrArg chunk.withValues (Array.toList_inj.1 ?_)
    rw [Chunk.toList_map_values]
  rw [mapInPlace, Edit.updates, hchunks]

lemma mapCheckedInPlace?_returns (f : k.Value → Option k.Value)
    (missing : ColumnError) :
    (c.mapCheckedInPlace? f missing).Returns ((mapCheckedInPlace f missing).runOn c).result := by
  refine (Guarded.returns_some (eachChunk?_eq h _)).ok_bind ?_
  rw [List.mapM_map]
  have hrun : ((mapCheckedInPlace f missing).runOn c).result = _ :=
    Edit.result_runOn_checks_bind _ _ c
  rw [hrun]
  show Guarded.Returns (do
    let staged ← orError missing (c.chunks.toList.mapM (Chunk.mapChecked? f))
    c.replaceEach? staged) _
  have hstaged := mapM_mapChecked?_eq_ite h f
  by_cases hany : (s.any fun x => x.2 && (f x.1).isNone) = true
  · rw [if_pos hany] at hstaged
    rw [hstaged]
    exact Guarded.returns_throw missing
  · rw [if_neg hany] at hstaged
    rw [hstaged]
    refine (Guarded.returns_except _).ok_bind (Guarded.returns_some ?_)
    refine (replaceEach?_eq c fun chunk _ => ?_).trans ?_
    · simp
    · simp only [List.zipWith_map_right, List.zipWith_self]

/-- Past the check of the scalar or of the rows for zero. -/
lemma checkScalarDivisor?_bind_returns (scalar : k.Value) (reverse : Bool)
    {x : Guarded (Container k)} {m : Edit (Container k) Unit}
    (hx : x.Returns (m.runOn c).result) :
    Guarded.Returns (do c.checkScalarDivisor? scalar reverse; x)
      ((Edit.checks (fun c => c.checkScalarDivisor scalar reverse) >>= fun _ => m).runOn
        c).result := by
  rw [Edit.result_runOn_checks_bind]
  exact (checkScalarDivisor?_returns h scalar reverse).bind fun _ _ => hx

theorem binaryScalar?_returns (op : BinaryOp) (scalar : k.Value) (reverse : Bool) :
    (c.binaryScalar? op scalar reverse).Returns
      ((binaryScalar op scalar reverse).runOn c).result := by
  rcases harith : k.arithmetic with ops | ops | ops | ops <;> rcases op with op | op <;>
    simp only [binaryScalar?, binaryScalar, harith]
  case wrapping.arithmetic =>
    have hmap := Guarded.returns_some
      (mapInPlace?_eq h (withScalar (ops.guarded op) scalar reverse))
    split_ifs
    · exact checkScalarDivisor?_bind_returns h scalar reverse hmap
    · exact hmap
  case checked.arithmetic =>
    have hmap := mapCheckedInPlace?_returns h (withScalar (ops op) scalar reverse)
      (.overflow k (.arithmetic op))
    split_ifs
    · exact checkScalarDivisor?_bind_returns h scalar reverse hmap
    · exact hmap
  case wrapping.bitwise =>
    exact Guarded.returns_some (mapInPlace?_eq h (withScalar (ops.bitwise op) scalar reverse))
  case rounding.arithmetic | logical.bitwise =>
    exact Guarded.returns_some (mapInPlace?_eq h (withScalar (ops op) scalar reverse))
  all_goals exact Guarded.returns_throw _

theorem shift?_returns (op : ShiftOp) (amount : Int32) :
    (c.shift? op amount).Returns ((shift op amount).runOn c).result := by
  rcases harith : k.arithmetic with ops | ops | ops | ops <;> simp only [shift?, shift, harith]
  case wrapping => exact Guarded.returns_some (mapInPlace?_eq h _)
  all_goals exact Guarded.returns_throw _

end

/-! ### Comparisons -/

/-- `Container.compare`. -/
def compare? (op : Comparison) (left right : Container k) : Guarded (Container .bool) := do
  k.arithmetic.support.check k (.comparison op)
  checkLayout left right
  let rows ← left.eachPair? right fun pairs => pairs.map fun (x, y) =>
    compareCells op x.cell y.cell
  ofRows? rows.flatten left.options

/-- `Container.compareScalar`. -/
def compareScalar? (op : Comparison) (c : Container k) (scalar : k.Value) :
    Guarded (Container .bool) := do
  k.arithmetic.support.check k (.comparison op)
  let rows ← c.eachChunk? fun slots => slots.map fun x => compareCells op x.cell (some scalar)
  ofRows? rows.flatten c.options

theorem compare?_returns (hl : left.Stores o s) (hr : right.Stores o' t) (op : Comparison) :
    (compare? op left right).Returns (compare op left right).result := by
  rw [compare, Traced.result_bind]
  refine (Guarded.returns_except _).bind fun _ _ => ?_
  rw [Traced.result_bind]
  refine (Guarded.returns_except _).bind fun _ hok => ?_
  have heq := hl.sizes_eq_of_checkLayout hr hok
  refine (Guarded.returns_some (eachPair?_eq hl hr heq _)).ok_bind ?_
  have hrows : ((chunkPairs left right).map fun p => (p.1.slots.zip p.2.slots).map fun (x, y) =>
      compareCells op (Slot.cell x) (Slot.cell y)).flatten
      = (chunkPairs left right).flatMap fun (l, r) => l.rows.zipWith (compareCells op) r.rows := by
    rw [List.flatMap_def]
    congr 1
    refine List.map_congr_left fun p _ => ?_
    show _ = List.zipWith (compareCells op) p.1.rows p.2.rows
    rw [Chunk.rows_eq_map_slots, Chunk.rows_eq_map_slots, List.zipWith_map,
      List.map_zip_eq_zipWith]
    rfl
  rw [hrows]
  exact ofRows?_returns _ _

theorem compareScalar?_returns (h : c.Stores o s) (op : Comparison) (scalar : k.Value) :
    (compareScalar? op c scalar).Returns (compareScalar op c scalar).result := by
  rw [compareScalar, Traced.result_bind]
  refine (Guarded.returns_except _).bind fun _ _ => ?_
  refine (Guarded.returns_some (eachChunk?_eq h _)).ok_bind ?_
  have hrows : (c.chunks.toList.map fun chunk => chunk.slots.map fun x =>
      compareCells op (Slot.cell x) (some scalar)).flatten
      = c.rows.map fun cell => compareCells op cell (some scalar) := by
    rw [h.rows_eq, ← h.flatMap_slots, List.map_map, List.map_flatMap, List.flatMap_def]
    rfl
  rw [hrows]
  exact ofRows?_returns _ _

end Container

end Columnar
