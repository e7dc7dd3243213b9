import Columnar.AnyColumn
import Columnar.Proofs.Column.Chunking
import Columnar.Proofs.Column.DistinctCount
import Columnar.View
/-!
# Room for every row

A buffer refuses to hold more values than its ceiling, and says so by an error of its own. Every row
is added to a chunk that has been opened for it, so that no operation on a reachable column ever
ends with that error. What an operation may be refused for is read off the specification on rows
that it refines, where ceilings do not occur.

Operations that cannot be refused at all, such as copying, grouping or exporting whole chunks, are
not listed.
-/

namespace Columnar

variable {k l : Kind} {ι σ α β : Type}

/-- The computation is not refused for want of room in a chunk. -/
def FindsRoom (x : Except ColumnError α) : Prop :=
  ∀ requested ceiling, x ≠ .error (.capacityExceeded requested ceiling)

namespace FindsRoom

lemma ok (a : α) : FindsRoom (.ok a) := nofun

/-- It is a matter of the error alone. -/
lemma error {e : ColumnError} (h : FindsRoom (.error e : Except ColumnError α)) :
    FindsRoom (.error e : Except ColumnError β) := by
  rintro requested ceiling ⟨⟩
  exact h requested ceiling rfl

variable {x : Except ColumnError α}

lemma bind_of_ok {f : α → Except ColumnError β} (hx : FindsRoom x)
    (hf : ∀ a, x = .ok a → FindsRoom (f a)) : FindsRoom (x >>= f) := by
  rcases x with e | a
  · exact hx.error
  · exact hf a rfl

lemma bind {f : α → Except ColumnError β} (hx : FindsRoom x) (hf : ∀ a, FindsRoom (f a)) :
    FindsRoom (x >>= f) :=
  hx.bind_of_ok fun a _ => hf a

lemma map (f : α → β) (hx : FindsRoom x) : FindsRoom (x.map f) := by
  rcases x with e | a
  · exact hx.error
  · exact ok (f a)

lemma mapM {f : ι → Except ColumnError α} (hf : ∀ i, FindsRoom (f i)) (is : List ι) :
    FindsRoom (is.mapM f) := by
  induction is with
  | nil => exact ok []
  | cons i is ih =>
    rw [List.mapM_cons]
    exact (hf i).bind fun _ => ih.bind fun _ => ok _

lemma foldlM {f : α → ι → Except ColumnError α} (hf : ∀ a i, FindsRoom (f a i)) (is : List ι)
    (a : α) : FindsRoom (is.foldlM f a) := by
  induction is generalizing a with
  | nil => exact ok a
  | cons i is ih =>
    rw [List.foldlM_cons]
    exact (hf a i).bind fun a => ih a

end FindsRoom

/-! ### Sequences of operations -/

/-- An operation finds room if the specification that it refines does. -/
lemma Edit.Refines.findsRoom {m : Edit σ Unit} {s : σ} {R : σ → α → Prop}
    {spec : Except ColumnError α} (h : m.Refines s R spec) (hspec : FindsRoom spec) :
    FindsRoom (m s).result := by
  rcases spec with e | a
  · rw [Refuses.result h]
    exact hspec.error
  · obtain ⟨t, ht, -⟩ := h
    rw [ht.result]
    exact .ok ()

lemma Traced.Refines.findsRoom {x : Traced σ} {R : σ → α → Prop} {spec : Except ColumnError α}
    (h : x.Refines R spec) (hspec : FindsRoom spec) : FindsRoom x.result := by
  rcases spec with e | a
  · rw [show x.result = .error e from h]
    exact hspec.error
  · obtain ⟨t, ht, -⟩ := h
    rw [ht]
    exact .ok t

lemma findsRoom_ofExcept_bind {x : Except ColumnError α} {m : α → Edit σ β} {s : σ}
    (hx : FindsRoom x) (hm : ∀ a, FindsRoom (m a s).result) :
    FindsRoom ((Edit.ofExcept x >>= m : Edit σ β) s).result := by
  rcases x with e | a
  · rw [((Edit.refuses_ofExcept rfl s).bind m).result]
    exact hx.error
  · rw [Edit.ofExcept_ok_bind]
    exact hm a

lemma findsRoom_traced_bind {x : Traced α} {f : α → Traced β} (hx : FindsRoom x.result)
    (hf : ∀ a, FindsRoom (f a).result) : FindsRoom (x >>= f).result := by
  rw [Traced.result_bind]
  exact hx.bind hf

/-! ### Operators on rows -/

lemma findsRoom_check (s : Support) (k : Kind) (op : Operator) : FindsRoom (s.check k op) := by
  rw [Support.check]
  split_ifs
  · exact .ok ()
  · rintro _ _ ⟨⟩

/-- What is only checked for legality. -/
lemma findsRoom_legal {k : Kind} (op : Operator) (a : α) : FindsRoom (do
    k.arithmetic.support.check k op
    return a) :=
  (findsRoom_check _ k op).bind fun _ => .ok a

lemma BinaryOp.findsRoom_onValues (op : BinaryOp) (a b : k.Value) :
    FindsRoom (op.onValues a b) := by
  rcases harith : k.arithmetic with ops | ops | ops | ops <;> rcases op with op | op <;>
    simp only [onValues, harith]
  case wrapping.arithmetic =>
    split_ifs
    · rintro _ _ ⟨⟩
    · exact .ok _
  case checked.arithmetic =>
    split_ifs
    · rintro _ _ ⟨⟩
    · rcases ops op a b with _ | v
      · rintro _ _ ⟨⟩
      · exact .ok v
  -- What is left either always has a result or is not an operator of the kind.
  all_goals rintro _ _ ⟨⟩

lemma BinaryOp.findsRoom_onPairs (op : BinaryOp) (pairs : List (Cell k × Cell k)) :
    FindsRoom (op.onPairs pairs) := by
  have hcells : ∀ x y : Cell k, FindsRoom (op.onCells x y) := by
    rintro (_ | a) (_ | b)
    case some.some => exact (op.findsRoom_onValues a b).map some
    all_goals exact .ok none
  rw [onPairs]
  split_ifs
  · rintro _ _ ⟨⟩
  · exact .mapM (fun p => hcells p.1 p.2) pairs

lemma BinaryOp.findsRoom_pairs (op : BinaryOp) (pairs : List (Cell k × Cell k)) : FindsRoom (do
    k.arithmetic.support.check k (.binary op)
    op.onPairs pairs) :=
  (findsRoom_check _ k _).bind fun _ => op.findsRoom_onPairs pairs

lemma Container.findsRoom_checkLayout (left right : Container k) :
    FindsRoom (checkLayout left right) := by
  rw [checkLayout]
  split_ifs
  · rintro _ _ ⟨⟩
  · split
    · rintro _ _ ⟨⟩
    · exact .ok ()

lemma BinaryOp.findsRoom_binary (op : BinaryOp) (left right : Container k)
    (pairs : List (Cell k × Cell k)) : FindsRoom (do
      k.arithmetic.support.check k (.binary op)
      Container.checkLayout left right
      op.onPairs pairs) :=
  (findsRoom_check _ k _).bind fun _ =>
    (Container.findsRoom_checkLayout left right).bind fun _ => op.findsRoom_onPairs pairs

lemma ShiftOp.findsRoom_onCell (op : ShiftOp) (amount : Int32) (x : Cell k) :
    FindsRoom (op.onCell amount x) := by
  rcases x with _ | v
  · exact .ok none
  · refine FindsRoom.map some ?_
    rcases harith : k.arithmetic with ops | ops | ops | ops <;> simp only [onValue, harith]
    case wrapping => exact .ok _
    all_goals rintro _ _ ⟨⟩

lemma ShiftOp.findsRoom_cells (op : ShiftOp) (amount : Int32) (rows : List (Cell k)) :
    FindsRoom (do
      k.arithmetic.support.check k (.shift op)
      rows.mapM (op.onCell amount)) :=
  (findsRoom_check _ k _).bind fun _ => .mapM (op.findsRoom_onCell amount) rows

lemma Scalar.findsRoom_expect (k : Kind) (x : Scalar) : FindsRoom (x.expect k) := by
  rw [expect]
  split
  · exact .ok _
  · rintro _ _ ⟨⟩

lemma Scalar.findsRoom_expectCell (k : Kind) (x : Scalar) : FindsRoom (x.expectCell k) := by
  rcases x with _ | ⟨l, v⟩
  · exact .ok none
  · exact (findsRoom_expect k _).bind fun v => .ok (some v)

lemma StorageOp.findsRoom_verdict (op : StorageOp k) (rows : List (Cell k)) :
    FindsRoom (op.verdict rows) := by
  cases op with
  | set index cell =>
    rw [verdict]
    split_ifs
    · exact .ok ()
    · rintro _ _ ⟨⟩
  | _ => exact .ok ()

namespace Container

lemma findsRoom_locate (c : Container k) (index : ℕ) : FindsRoom (c.locate index) := by
  rw [locate]
  split_ifs
  · exact .ok _
  · rintro _ _ ⟨⟩

lemma findsRoom_get (c : Container k) (index : ℕ) : FindsRoom (c.get index) :=
  (c.findsRoom_locate index).bind fun _ => .ok _

lemma findsRoom_chunkIndexForRow (c : Container k) (index : ℕ) :
    FindsRoom (c.chunkIndexForRow index) :=
  (c.findsRoom_locate index).bind fun _ => .ok _

lemma findsRoom_maxContiguousRun (c : Container k) (start : ℕ) :
    FindsRoom (c.maxContiguousRun start) := by
  rw [maxContiguousRun]
  split_ifs
  · exact .ok 0
  · exact (c.findsRoom_locate start).bind fun _ => .ok _

lemma findsRoom_exportRange (c : Container k) (start count : ℕ) :
    FindsRoom (c.exportRange start count) := by
  rw [exportRange]
  split_ifs
  · exact .ok _
  · dsimp only
    split_ifs
    · rintro _ _ ⟨⟩
    · refine (c.findsRoom_chunkIndexForRow start).bind fun _ => ?_
      split_ifs
      · rintro _ _ ⟨⟩
      · exact .ok _

lemma findsRoom_selectRows (rows : List (Cell k)) (mapLen : ℕ) (invert : Bool)
    {entry : ℕ → Except ColumnError (Option ℕ)} (hentry : ∀ i, FindsRoom (entry i)) :
    FindsRoom (selectRows rows mapLen invert entry) := by
  rw [selectRows]
  split_ifs
  · rintro _ _ ⟨⟩
  · refine .mapM (fun position => (hentry position).bind fun source => ?_) _
    rcases source with _ | source
    · exact .ok none
    · rw [mappedRow, rowAt]
      split_ifs
      · exact .ok _
      · rintro _ _ ⟨⟩

end Container

namespace Column

variable {name : String} {o : Options} {rows : List (Cell k)} {c : Column k}

lemma findsRoom_aggregate (a : Aggregate) (acc v : k.Value) : FindsRoom (a.step acc v) := by
  cases a with
  | sum => exact BinaryOp.findsRoom_onValues _ acc v
  | product => exact BinaryOp.findsRoom_onValues _ acc v
  | min => exact .ok _
  | max => exact .ok _

lemma findsRoom_reduce (c : Column k) (a : Aggregate) : FindsRoom (c.reduce a) := by
  refine (findsRoom_check _ k _).bind fun _ => ?_
  rcases c.values with _ | ⟨v, vs⟩
  · exact .ok none
  · exact (FindsRoom.foldlM (findsRoom_aggregate a) vs v).bind fun _ => .ok _

lemma findsRoom_running (a : Aggregate) (rows : List (Cell k)) : FindsRoom (running a rows) := by
  refine (FindsRoom.foldlM ?_ rows _).bind fun _ => .ok _
  rintro ⟨_ | acc, done⟩ (_ | v)
  case some.some => exact (findsRoom_aggregate a acc v).bind fun _ => .ok _
  all_goals exact .ok _

/-! ### Changes in place -/

lemma findsRoom_storage (op : StorageOp k) (hc : c.Holds name o rows) :
    FindsRoom (onContainer op.run c).result :=
  (refines_onContainer hc (Container.refines_storage op hc.2)).findsRoom
    ((op.findsRoom_verdict rows).map _)

/-- A change in place finds room for what it adds. -/
theorem Mutation.findsRoom (m : Mutation k) (hc : c.Reachable)
    (hm : ∀ other, m.operand? = some other → other.Reachable) : FindsRoom (m.run c).result := by
  have h := hc.holds
  cases m with
  | rename name => exact .ok ()
  | set index cell => exact findsRoom_storage (.set index cell) h
  | setScalar index x =>
    exact findsRoom_ofExcept_bind (x.findsRoom_expectCell k) fun cell =>
      findsRoom_storage (.set index cell) h
  | append cell => exact findsRoom_storage (.append cell) h
  | appendScalar x =>
    exact findsRoom_ofExcept_bind (x.findsRoom_expectCell k) fun cell =>
      findsRoom_storage (.append cell) h
  | appendMany cell count => exact findsRoom_storage (.appendMany cell count) h
  | resize newLen => exact findsRoom_storage (.resize newLen) h
  | binary op other =>
    exact (refines_binaryInPlace h (hm other rfl).holds.2 op).findsRoom
      (op.findsRoom_binary _ _ _)
  | binaryScalar op scalar reverse =>
    exact (refines_binaryScalarInPlace h op scalar reverse).findsRoom (op.findsRoom_pairs _)
  | shift op amount => exact (refines_shiftInPlace h op amount).findsRoom (op.findsRoom_cells _ _)
  | clip lower upper => exact (refines_clipInPlace h lower upper).findsRoom (findsRoom_legal _ _)
  | fillNulls v => exact findsRoom_storage (.fillNulls v) h
  | apply f => exact findsRoom_storage (.apply f) h
  | kernelBinary op other =>
    exact (refines_onContainer h (Container.refines_binary h.2 (hm other rfl).holds.2 op)).findsRoom
      (op.findsRoom_binary _ _ _)
  | kernelBinaryScalar op scalar reverse =>
    exact (refines_onContainer h (Container.refines_binaryScalar h.2 op scalar reverse)).findsRoom
      (op.findsRoom_pairs _)
  | kernelShift op amount =>
    exact (refines_onContainer h (Container.refines_shift h.2 op amount)).findsRoom
      (op.findsRoom_cells _ _)

/-! ### New columns -/

lemma findsRoom_rebuild (c : Column k) (entries : List (Cell l)) :
    FindsRoom (c.rebuild entries).result :=
  (refines_ofRows c.name entries c.options).findsRoom (.ok entries)

/-- An index map is read through lookups, whatever its own rows are. -/
lemma findsRoom_selectByColumn (hc : c.Holds name o rows) (map : Column .uint64) (invert : Bool) :
    FindsRoom (c.selectByColumn map invert).result := by
  have hentry : ∀ position, FindsRoom (do
      return (← map.container.get position).map fun (index : UInt64) => index.toNat) :=
    fun position => (map.container.findsRoom_get position).bind fun _ => .ok _
  have hselect := (Container.refines_selectBy hc.2 map.len invert _).findsRoom
    (Container.findsRoom_selectRows rows _ invert hentry)
  exact findsRoom_traced_bind hselect fun _ => .ok _

/-- A new column finds room for its rows. -/
theorem Derivation.findsRoom (q : Derivation k l) (hc : c.Reachable) :
    FindsRoom (q.run c).result := by
  have h := hc.holds
  cases q with
  | binaryScalar op scalar reverse =>
    exact (refines_binaryScalar h op scalar reverse).findsRoom (op.findsRoom_pairs _)
  | shift op amount => exact (refines_shift h op amount).findsRoom (op.findsRoom_cells _ _)
  | compareScalar op scalar =>
    exact (refines_compareScalar h op scalar).findsRoom (findsRoom_legal _ _)
  | clip lower upper => exact (refines_clip h lower upper).findsRoom (findsRoom_legal _ _)
  | fillNulls v => exact (refines_fillNulls h v).findsRoom (.ok _)
  | filter lower upper =>
    exact findsRoom_traced_bind (findsRoom_check _ k _) fun _ => findsRoom_rebuild c _
  | filterByMask mask =>
    rw [run, Column.filterByMask]
    split_ifs
    · rintro _ _ ⟨⟩
    · exact findsRoom_rebuild c _
  | dropNulls => exact findsRoom_rebuild c _
  | isNullMask => exact findsRoom_rebuild c _
  | apply f => exact findsRoom_rebuild c _
  | head count => exact findsRoom_rebuild c _
  | tail count => exact findsRoom_rebuild c _
  | argsort ascending => exact findsRoom_rebuild c _
  | sort ascending =>
    exact findsRoom_traced_bind (findsRoom_rebuild c _) fun order =>
      findsRoom_selectByColumn h order false
  | cumulative a =>
    refine findsRoom_traced_bind (findsRoom_check _ k _) fun _ => ?_
    exact findsRoom_traced_bind (findsRoom_running a c.rows) fun _ => findsRoom_rebuild c _
  | select map invert =>
    exact (refines_select h map invert).findsRoom
      (Container.findsRoom_selectRows _ _ _ fun _ => .ok _)
  | selectByColumn map invert => exact findsRoom_selectByColumn h map invert

/-! ### Reductions -/

lemma findsRoom_mean (c : Column k) : FindsRoom c.mean :=
  (findsRoom_check _ k _).bind fun _ => .ok _

/-! ### The columns of a program -/

/-- Rows can be made a column of the kind under the options, one by one or all at once. -/
structure MakesRoom (k : Kind) (o : Options) : Prop where
  push : ∀ rows : List (Cell k),
    (Edit.forEach rows Builder.push { options := o }).result = .ok ()
  ofRows : ∀ name (rows : List (Cell k)), ∃ c, (ofRows name rows o).result = .ok c
  ofLen : ∀ name len, ∃ c : Column k, (ofLen name len o).result = .ok c
  ofRawBytes : ∀ name values validity len,
    FindsRoom (ofRawBytes name values validity len o : Traced (Column k)).result
  ofArrow : ∀ name a, FindsRoom (ofArrow name a o : Traced (Column k)).result

/-- Every push opens a chunk before it fills it. -/
theorem makesRoom (k : Kind) (o : Options) : MakesRoom k o := by
  have hofRows : ∀ rows : List (Cell k), FindsRoom (Container.ofRows rows o).result :=
    fun rows => (Container.refines_ofRows rows o).findsRoom (.ok rows)
  constructor
  case push =>
    intro rows
    obtain ⟨b, hb, -⟩ := Builder.yields_pushAll (Builder.stores_empty o) rows
    exact hb.result
  case ofRows =>
    intro name rows
    obtain ⟨c, hc, -⟩ := refines_ofRows name rows o
    exact ⟨c, hc⟩
  case ofLen =>
    intro name len
    obtain ⟨c, hc, -⟩ := Container.result_ofLen (k := k) len o
    rw [Column.ofLen, Traced.result_bind, hc]
    exact ⟨_, rfl⟩
  -- Buffers and arrays are checked first; what passes is a list of rows.
  case ofRawBytes =>
    intro name values validity len
    refine findsRoom_traced_bind ?_ fun _ => .ok _
    rw [Container.ofRawBytes]
    dsimp only
    split
    · rintro _ _ ⟨⟩
    · rcases validity with _ | bitmap
      · exact hofRows _
      · dsimp only
        split
        · rintro _ _ ⟨⟩
        · exact hofRows _
  case ofArrow =>
    intro name a
    refine findsRoom_traced_bind ?_ fun _ => .ok _
    rw [Container.ofArrow]
    split_ifs
    · rintro _ _ ⟨⟩
    · exact hofRows _

/-- No operation on the column is refused for want of room. -/
structure NeverFull (c : Column k) : Prop where
  mutate : ∀ m : Mutation k, (∀ other, m.operand? = some other → other.Reachable) →
    FindsRoom (m.run c).result
  derive : ∀ {l : Kind} (q : Derivation k l), FindsRoom (q.run c).result
  binary : ∀ op other, other.Reachable → FindsRoom (c.binary op other).result
  compare : ∀ op other, other.Reachable → FindsRoom (c.compare op other).result
  reduce : ∀ a, FindsRoom (c.reduce a)
  mean : FindsRoom c.mean
  stats : FindsRoom c.stats.result
  get : ∀ index, FindsRoom (c.get index)
  getScalar : ∀ index, FindsRoom (c.getScalar index)
  isValid : ∀ index, FindsRoom (c.container.isValid index)
  chunkIndexForRow : ∀ index, FindsRoom (c.container.chunkIndexForRow index)
  maxContiguousRun : ∀ start, FindsRoom (c.container.maxContiguousRun start)
  exportRange : ∀ start count, FindsRoom (c.container.exportRange start count)

theorem Reachable.neverFull (hc : c.Reachable) : c.NeverFull where
  mutate m hm := m.findsRoom hc hm
  derive q := q.findsRoom hc
  binary op other hother :=
    (refines_binary hc.holds hother.holds.2 op).findsRoom (op.findsRoom_binary _ _ _)
  compare op other hother :=
    (refines_compare hc.holds hother.holds.2 op).findsRoom ((findsRoom_check _ k _).bind fun _ =>
      (Container.findsRoom_checkLayout _ _).bind fun _ => .ok _)
  reduce a := c.findsRoom_reduce a
  mean := c.findsRoom_mean
  stats := by
    obtain ⟨stats, -, hstats, -⟩ := c.exists_stats
    rw [hstats]
    exact .ok stats
  get index := c.container.findsRoom_get index
  getScalar index := (c.container.findsRoom_get index).bind fun _ => .ok _
  isValid index := (c.container.findsRoom_locate index).bind fun _ => .ok _
  chunkIndexForRow index := c.container.findsRoom_chunkIndexForRow index
  maxContiguousRun start := c.container.findsRoom_maxContiguousRun start
  exportRange start count := c.container.findsRoom_exportRange start count

end Column

/-! ### Columns of any kind -/

namespace AnyColumn

lemma findsRoom_expect (c : AnyColumn) (k : Kind) : FindsRoom (c.expect k) := by
  rw [expect]
  split
  · exact .ok _
  · rintro _ _ ⟨⟩

/-- The column of a kind that is needed is the column itself. -/
lemma reachable_of_expect {c : AnyColumn} {d : Column k} (h : c.expect k = .ok d)
    (hc : c.column.Reachable) : d.Reachable := by
  obtain ⟨kind, column⟩ := c
  by_cases hk : kind = k
  · subst hk
    simp only [expect, as?, dif_pos, Except.ok.injEq] at h
    exact h ▸ hc
  · simp [expect, as?, hk] at h

/-- No operation on the column is refused for want of room. -/
structure NeverFull (c : AnyColumn) : Prop where
  getScalar : ∀ index, FindsRoom (c.getScalar index)
  setScalar : ∀ index x, FindsRoom (setScalar index x c).result
  appendScalar : ∀ x, FindsRoom (appendScalar x c).result
  select : ∀ map invert, FindsRoom (c.select map invert).result
  binary : ∀ op other, other.column.Reachable → FindsRoom (c.binary op other).result
  binaryScalar : ∀ op x reverse, FindsRoom (c.binaryScalar op x reverse).result
  shift : ∀ op amount, FindsRoom (c.shift op amount).result
  compare : ∀ op other, other.column.Reachable → FindsRoom (c.compare op other).result
  compareScalar : ∀ op x, FindsRoom (c.compareScalar op x).result
  stats : FindsRoom c.stats.result

theorem neverFull (c : AnyColumn) (hc : c.column.Reachable) : c.NeverFull := by
  have h := hc.neverFull
  constructor
  case getScalar => exact h.getScalar
  case setScalar => exact fun index x => h.mutate (.setScalar index x) nofun
  case appendScalar => exact fun x => h.mutate (.appendScalar x) nofun
  case stats => exact h.stats
  case select =>
    intro map invert
    exact findsRoom_traced_bind (h.derive (.select map invert)) fun _ => .ok _
  case shift =>
    intro op amount
    exact findsRoom_traced_bind (h.derive (.shift op amount)) fun _ => .ok _
  -- An operand of another kind is refused; one of this kind is a column of a program too.
  case binary =>
    intro op other hother
    rw [AnyColumn.binary, Traced.result_bind]
    refine (other.findsRoom_expect c.kind).bind_of_ok fun right hright => ?_
    exact findsRoom_traced_bind (h.binary op right (reachable_of_expect hright hother))
      fun _ => .ok _
  case compare =>
    intro op other hother
    rw [AnyColumn.compare, Traced.result_bind]
    refine (other.findsRoom_expect c.kind).bind_of_ok fun right hright => ?_
    exact h.compare op right (reachable_of_expect hright hother)
  case binaryScalar =>
    intro op x reverse
    refine findsRoom_traced_bind (x.findsRoom_expect c.kind) fun v => ?_
    exact findsRoom_traced_bind (h.derive (.binaryScalar op v reverse)) fun _ => .ok _
  case compareScalar =>
    intro op x
    refine findsRoom_traced_bind (x.findsRoom_expect c.kind) fun v => ?_
    exact h.derive (.compareScalar op v)

end AnyColumn

end Columnar
