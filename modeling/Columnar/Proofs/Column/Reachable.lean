import Columnar.Arrow.Exchange
import Columnar.Column.Reduce
import Columnar.Column.Sort
import Columnar.Proofs.Container.Binary
import Columnar.Proofs.Container.Broadcast
/-!
# The columns of a program

A program gets hold of columns by building them, by changing them in place and by deriving others
from them; these are the reachable columns. Changes in place are listed as `Mutation`s. A mutation
may fail, and the column it leaves behind is reachable too.

Every reachable column is well-formed. The step lemma is that a mutation settles: it is refused
and changes nothing, or it succeeds and leaves a container that stores some slots.
-/

namespace Columnar.Column

/-- The operations that change a column in place. Those of the second group are the operators on
the container, called without the column's own check of legality. -/
inductive Mutation (k : Kind) where
  | rename (name : String)
  | set (index : ℕ) (cell : Cell k)
  | setScalar (index : ℕ) (s : Scalar)
  | append (cell : Cell k)
  | appendScalar (s : Scalar)
  | appendMany (cell : Cell k) (count : ℕ)
  | resize (newLen : ℕ)
  | binary (op : BinaryOp) (other : Column k)
  | binaryScalar (op : BinaryOp) (scalar : k.Value) (reverse : Bool)
  | shift (op : ShiftOp) (amount : Int32)
  | clip (lower upper : k.Value)
  | fillNulls (v : k.Value)
  | apply (f : Cell k → Cell k)
  | kernelBinary (op : BinaryOp) (other : Column k)
  | kernelBinaryScalar (op : BinaryOp) (scalar : k.Value) (reverse : Bool)
  | kernelShift (op : ShiftOp) (amount : Int32)

namespace Mutation

variable {k : Kind}

/-- Carry out a mutation. -/
def run : Mutation k → Edit (Column k) Unit
  | rename name => Column.rename name
  | set index cell => Column.set index cell
  | setScalar index s => Column.setScalar index s
  | append cell => Column.append cell
  | appendScalar s => Column.appendScalar s
  | appendMany cell count => Column.appendMany cell count
  | resize newLen => Column.resize newLen
  | binary op other => binaryInPlace op other
  | binaryScalar op scalar reverse => binaryScalarInPlace op scalar reverse
  | shift op amount => shiftInPlace op amount
  | clip lower upper => clipInPlace lower upper
  | fillNulls v => fillNullsInPlace v
  | apply f => applyInPlace f
  | kernelBinary op other => onContainer (Container.binary op other.container)
  | kernelBinaryScalar op scalar reverse => onContainer (Container.binaryScalar op scalar reverse)
  | kernelShift op amount => onContainer (Container.shift op amount)

/-- The second column that a mutation works with. -/
def operand? : Mutation k → Option (Column k)
  | binary _ other | kernelBinary _ other => some other
  | _ => none

end Mutation

/-- The columns that a program can get hold of. -/
inductive Reachable : {k : Kind} → Column k → Prop
  | empty {k : Kind} (name : String) (options : Options) :
    Reachable (Column.empty name options : Column k)
  | ofLen {k : Kind} {c : Column k} (name : String) (len : ℕ) (options : Options) :
    (Column.ofLen name len options).result = .ok c → Reachable c
  | ofRows {k : Kind} {c : Column k} (name : String) (rows : List (Cell k)) (options : Options) :
    (Column.ofRows name rows options).result = .ok c → Reachable c
  | ofRawBytes {k : Kind} {c : Column k} (name : String) (values : Array UInt8)
      (validity : Option (Array UInt8)) (len : ℕ) (options : Options) :
    (Column.ofRawBytes name values validity len options).result = .ok c → Reachable c
  | ofArrow {k : Kind} {c : Column k} (name : String) (a : ArrowArray) (options : Options) :
    (Column.ofArrow name a options).result = .ok c → Reachable c
  | mutate {k : Kind} {c : Column k} (m : Mutation k) : Reachable c →
    (∀ other, m.operand? = some other → Reachable other) → Reachable (m.run c).state
  | copy {k : Kind} {c : Column k} : Reachable c → Reachable c.copy
  | select {k : Kind} {c d : Column k} (map : Array ℕ) (invert : Bool) : Reachable c →
    (c.select map invert).result = .ok d → Reachable d
  | selectByColumn {k : Kind} {c d : Column k} {map : Column .uint64} (invert : Bool) :
    Reachable c → Reachable map → (c.selectByColumn map invert).result = .ok d → Reachable d
  | binary {k : Kind} {c other d : Column k} (op : BinaryOp) : Reachable c → Reachable other →
    (c.binary op other).result = .ok d → Reachable d
  | binaryScalar {k : Kind} {c d : Column k} (op : BinaryOp) (scalar : k.Value) (reverse : Bool) :
    Reachable c → (c.binaryScalar op scalar reverse).result = .ok d → Reachable d
  | shift {k : Kind} {c d : Column k} (op : ShiftOp) (amount : Int32) : Reachable c →
    (c.shift op amount).result = .ok d → Reachable d
  | compare {k : Kind} {c other : Column k} {d : Column .bool} (op : Comparison) : Reachable c →
    Reachable other → (c.compare op other).result = .ok d → Reachable d
  | compareScalar {k : Kind} {c : Column k} {d : Column .bool} (op : Comparison)
      (scalar : k.Value) :
    Reachable c → (c.compareScalar op scalar).result = .ok d → Reachable d
  | filter {k : Kind} {c d : Column k} (lower upper : k.Value) : Reachable c →
    (c.filter lower upper).result = .ok d → Reachable d
  | filterByMask {k : Kind} {c d : Column k} {mask : Column .bool} : Reachable c →
    Reachable mask → (c.filterByMask mask).result = .ok d → Reachable d
  | clip {k : Kind} {c d : Column k} (lower upper : k.Value) : Reachable c →
    (c.clip lower upper).result = .ok d → Reachable d
  | fillNulls {k : Kind} {c d : Column k} (v : k.Value) : Reachable c →
    (c.fillNulls v).result = .ok d → Reachable d
  | dropNulls {k : Kind} {c d : Column k} : Reachable c →
    c.dropNulls.result = .ok d → Reachable d
  | isNullMask {k : Kind} {c : Column k} {d : Column .bool} : Reachable c →
    c.isNullMask.result = .ok d → Reachable d
  | apply {k : Kind} {c d : Column k} (f : Cell k → Cell k) : Reachable c →
    (c.apply f).result = .ok d → Reachable d
  | head {k : Kind} {c d : Column k} (count : ℕ) : Reachable c →
    (c.head count).result = .ok d → Reachable d
  | tail {k : Kind} {c d : Column k} (count : ℕ) : Reachable c →
    (c.tail count).result = .ok d → Reachable d
  | argsort {k : Kind} {c : Column k} {d : Column .uint64} (ascending : Bool) : Reachable c →
    (c.argsort ascending).result = .ok d → Reachable d
  | sort {k : Kind} {c d : Column k} (ascending : Bool) : Reachable c →
    (c.sort ascending).result = .ok d → Reachable d
  | cumulative {k : Kind} {c d : Column k} (a : Aggregate) : Reachable c →
    (c.cumulative a).result = .ok d → Reachable d

/-- The column's container stores some slots. -/
def Sound {k : Kind} (c : Column k) : Prop := ∃ o s, c.container.Stores o s

variable {k : Kind} {c d : Column k}

/-! ### Mutations -/

lemma settles_onContainer {m : Edit (Container k) Unit} {o : Options}
    (h : m.Settles (fun d => ∃ s, d.Stores o s) c.container) : (onContainer m).Settles Sound c :=
  h.within rfl fun _ hs => ⟨o, hs⟩

lemma settles_set (hc : c.Sound) (index : ℕ) (cell : Cell k) :
    (set index cell).Settles Sound c := by
  obtain ⟨o, s, h⟩ := hc
  refine settles_onContainer (o := o) ?_
  rcases Nat.lt_or_ge index s.length with hlt | hge
  · obtain ⟨d, hd, hstores⟩ := Container.yields_set h hlt cell
    exact hd.settles ⟨_, hstores⟩
  · exact (Container.refuses_set h hge cell).settles _

lemma settles_append (hc : c.Sound) (cell : Cell k) : (append cell).Settles Sound c := by
  obtain ⟨o, s, h⟩ := hc
  obtain ⟨d, hd, hstores⟩ := Container.yields_append h cell
  exact settles_onContainer (hd.settles ⟨_, hstores⟩)

/-- A mutation is refused and changes nothing, or it leaves a sound column. -/
theorem Mutation.settles (m : Mutation k) (hc : c.Sound)
    (hm : ∀ other, m.operand? = some other → other.Sound) : m.run.Settles Sound c := by
  obtain ⟨o, s, h⟩ := id hc
  cases m with
  | rename name => exact (Edit.yields_updates _ c).settles ⟨o, s, h⟩
  | set index cell => exact settles_set hc index cell
  | setScalar index x =>
    exact Edit.settles_ofExcept_bind fun cell _ => settles_set hc index cell
  | append cell => exact settles_append hc cell
  | appendScalar x => exact Edit.settles_ofExcept_bind fun cell _ => settles_append hc cell
  | appendMany cell count =>
    obtain ⟨d, hd, hstores⟩ := Container.yields_appendMany h cell count
    exact settles_onContainer (hd.settles ⟨_, hstores⟩)
  | resize newLen =>
    obtain ⟨d, hd, hstores⟩ := Container.yields_resize h newLen
    exact settles_onContainer (hd.settles ⟨_, hstores⟩)
  | binary op other =>
    obtain ⟨o', t, h'⟩ := hm other rfl
    exact Edit.settles_ofExcept_bind fun _ _ =>
      settles_onContainer (Container.settles_binary h h' op)
  | binaryScalar op scalar reverse =>
    exact Edit.settles_ofExcept_bind fun _ _ =>
      settles_onContainer (Container.settles_binaryScalar h op scalar reverse)
  | shift op amount =>
    exact Edit.settles_ofExcept_bind fun _ _ =>
      settles_onContainer (Container.settles_shift h op amount)
  | clip lower upper =>
    exact Edit.settles_ofExcept_bind fun _ _ =>
      settles_onContainer ((Edit.yields_updates _ _).settles ⟨_, h.clip lower upper⟩)
  | fillNulls v =>
    exact settles_onContainer ((Edit.yields_updates _ _).settles ⟨_, h.fillNulls v⟩)
  | apply f =>
    obtain ⟨d, hd, hstores⟩ := Container.yields_applyInPlace h f
    exact settles_onContainer (hd.settles ⟨_, hstores⟩)
  | kernelBinary op other =>
    obtain ⟨o', t, h'⟩ := hm other rfl
    exact settles_onContainer (Container.settles_binary h h' op)
  | kernelBinaryScalar op scalar reverse =>
    exact settles_onContainer (Container.settles_binaryScalar h op scalar reverse)
  | kernelShift op amount => exact settles_onContainer (Container.settles_shift h op amount)

/-! ### Columns built from rows -/

/-- The container was built from a list of rows. -/
def BuiltFromRows (c : Column k) : Prop :=
  ∃ rows o, (Container.ofRows rows o).result = .ok c.container

lemma BuiltFromRows.sound (h : c.BuiltFromRows) : c.Sound := by
  obtain ⟨rows, o, h⟩ := h
  exact ⟨o, _, Container.stores_of_result_ofRows h⟩

lemma builtFromRows_of_ofRows {name : String} {rows : List (Cell k)} {options : Options}
    (h : (ofRows name rows options).result = .ok c) : c.BuiltFromRows := by
  obtain ⟨d, hd, hc⟩ := Traced.result_bind_eq_ok.1 h
  cases hc
  exact ⟨rows, options, hd⟩

lemma builtFromRows_of_ofRawBytes {name : String} {values : Array UInt8}
    {validity : Option (Array UInt8)} {len : ℕ} {options : Options}
    (h : (ofRawBytes name values validity len options).result = .ok c) : c.BuiltFromRows := by
  obtain ⟨d, hd, hc⟩ := Traced.result_bind_eq_ok.1 h
  cases hc
  rw [Container.ofRawBytes] at hd
  dsimp only at hd
  split at hd
  · cases hd
  · rcases validity with _ | bitmap
    · exact ⟨_, _, hd⟩
    · dsimp only at hd
      split at hd
      · cases hd
      · exact ⟨_, _, hd⟩

lemma builtFromRows_of_ofArrow {name : String} {a : ArrowArray} {options : Options}
    (h : (ofArrow name a options).result = .ok c) : c.BuiltFromRows := by
  obtain ⟨d, hd, hc⟩ := Traced.result_bind_eq_ok.1 h
  cases hc
  rw [Container.ofArrow] at hd
  split_ifs at hd
  · cases hd
  · exact ⟨_, _, hd⟩

lemma builtFromRows_of_compare {other : Column k} {op : Comparison} {d : Column .bool}
    (h : (c.compare op other).result = .ok d) : d.BuiltFromRows := by
  obtain ⟨e, he, hd⟩ := Traced.result_bind_eq_ok.1 h
  cases hd
  obtain ⟨-, -, he⟩ := Traced.result_bind_eq_ok.1 he
  obtain ⟨-, -, he⟩ := Traced.result_bind_eq_ok.1 he
  exact ⟨_, _, he⟩

lemma builtFromRows_of_compareScalar {op : Comparison} {scalar : k.Value} {d : Column .bool}
    (h : (c.compareScalar op scalar).result = .ok d) : d.BuiltFromRows := by
  obtain ⟨e, he, hd⟩ := Traced.result_bind_eq_ok.1 h
  cases hd
  obtain ⟨-, -, he⟩ := Traced.result_bind_eq_ok.1 he
  exact ⟨_, _, he⟩

lemma builtFromRows_of_filter {lower upper : k.Value}
    (h : (c.filter lower upper).result = .ok d) : d.BuiltFromRows := by
  obtain ⟨-, -, hd⟩ := Traced.result_bind_eq_ok.1 h
  exact builtFromRows_of_ofRows hd

lemma builtFromRows_of_filterByMask {mask : Column .bool}
    (h : (c.filterByMask mask).result = .ok d) : d.BuiltFromRows := by
  rw [filterByMask] at h
  split_ifs at h
  · cases h
  · exact builtFromRows_of_ofRows h

lemma builtFromRows_of_cumulative {a : Aggregate} (h : (c.cumulative a).result = .ok d) :
    d.BuiltFromRows := by
  obtain ⟨-, -, hd⟩ := Traced.result_bind_eq_ok.1 h
  obtain ⟨rows, -, hd⟩ := Traced.result_bind_eq_ok.1 hd
  exact builtFromRows_of_ofRows hd

/-! ### Columns that other ones are derived from -/

lemma Sound.copy (hc : c.Sound) : c.copy.Sound := by
  obtain ⟨o, s, h⟩ := hc
  exact ⟨o, s, h.copy⟩

/-- What a mutation makes of a copy is sound. -/
lemma Mutation.sound_of_runOn_copy (m : Mutation k) (hc : c.Sound)
    (hm : ∀ other, m.operand? = some other → other.Sound)
    (h : (m.run.runOn c.copy).result = .ok d) : d.Sound :=
  (m.settles hc.copy hm).of_runOn h

/-- Rows selected through a map are pushed one by one, whatever the map is. -/
lemma stores_of_selectBy {c d : Container k} {mapLen : ℕ} {invert : Bool}
    {entry : ℕ → Except ColumnError (Option ℕ)}
    (h : (c.selectBy mapLen invert entry).result = .ok d) : ∃ s, d.Stores c.options s := by
  rw [Container.selectBy] at h
  split_ifs at h
  · cases h
  · obtain ⟨-, -, h⟩ := Traced.result_bind_eq_ok.1 h
    refine Container.stores_of_build (Edit.keeps_forEach (fun position => ?_) _) h
    refine (Edit.keeps_ofExcept _).bind fun source => ?_
    rcases source with _ | source
    · exact Builder.keeps_push _ _
    · exact (Edit.keeps_ofExcept _).bind fun cell => Builder.keeps_push _ _

lemma sound_of_select {map : Array ℕ} {invert : Bool} (h : (c.select map invert).result = .ok d) :
    d.Sound := by
  obtain ⟨e, he, hd⟩ := Traced.result_bind_eq_ok.1 h
  cases hd
  exact ⟨_, stores_of_selectBy he⟩

lemma sound_of_selectByColumn {map : Column .uint64} {invert : Bool}
    (h : (c.selectByColumn map invert).result = .ok d) : d.Sound := by
  obtain ⟨e, he, hd⟩ := Traced.result_bind_eq_ok.1 h
  cases hd
  exact ⟨_, stores_of_selectBy he⟩

/-! ### Reachable columns -/

/-- Every reachable column is sound, by induction on how it was reached. -/
theorem Reachable.sound {k : Kind} {c : Column k} (h : c.Reachable) : c.Sound := by
  induction h with
  | empty name options => exact ⟨options, [], Container.stores_empty options⟩
  | ofLen name len options h =>
    obtain ⟨d, hd, hc⟩ := Traced.result_bind_eq_ok.1 h
    cases hc
    obtain ⟨e, he, hstores⟩ := Container.result_ofLen len options
    rw [he, Except.ok.injEq] at hd
    exact ⟨_, _, hd ▸ hstores⟩
  | ofRows name rows options h => exact (builtFromRows_of_ofRows h).sound
  | ofRawBytes name values validity len options h => exact (builtFromRows_of_ofRawBytes h).sound
  | ofArrow name a options h => exact (builtFromRows_of_ofArrow h).sound
  | mutate m _ _ hc hm => exact (m.settles hc hm).state hc
  | copy _ hc => exact hc.copy
  | select map invert _ h => exact sound_of_select h
  | selectByColumn invert _ _ h => exact sound_of_selectByColumn h
  | binary op _ _ h hc hother =>
    -- the operand is checked twice, before it is copied and by the mutation of the copy
    obtain ⟨-, -, h⟩ := Traced.result_bind_eq_ok.1 h
    refine Mutation.sound_of_runOn_copy (.binary op _) hc ?_ h
    rintro _ ⟨⟩
    exact hother
  | binaryScalar op scalar reverse _ h hc =>
    obtain ⟨-, -, h⟩ := Traced.result_bind_eq_ok.1 h
    exact Mutation.sound_of_runOn_copy (.binaryScalar op scalar reverse) hc (by rintro _ ⟨⟩) h
  | shift op amount _ h hc =>
    obtain ⟨-, -, h⟩ := Traced.result_bind_eq_ok.1 h
    exact Mutation.sound_of_runOn_copy (.shift op amount) hc (by rintro _ ⟨⟩) h
  | compare op _ _ h => exact (builtFromRows_of_compare h).sound
  | compareScalar op scalar _ h => exact (builtFromRows_of_compareScalar h).sound
  | filter lower upper _ h => exact (builtFromRows_of_filter h).sound
  | filterByMask _ _ h => exact (builtFromRows_of_filterByMask h).sound
  | clip lower upper _ h hc =>
    exact Mutation.sound_of_runOn_copy (.clip lower upper) hc (by rintro _ ⟨⟩) h
  | fillNulls v _ h hc =>
    exact Mutation.sound_of_runOn_copy (.fillNulls v) hc (by rintro _ ⟨⟩) h
  | dropNulls _ h => exact (builtFromRows_of_ofRows h).sound
  | isNullMask _ h => exact (builtFromRows_of_ofRows h).sound
  | apply f _ h => exact (builtFromRows_of_ofRows h).sound
  | head count _ h => exact (builtFromRows_of_ofRows h).sound
  | tail count _ h => exact (builtFromRows_of_ofRows h).sound
  | argsort ascending _ h => exact (builtFromRows_of_ofRows h).sound
  | sort ascending _ h =>
    obtain ⟨order, -, h⟩ := Traced.result_bind_eq_ok.1 h
    exact sound_of_selectByColumn h
  | cumulative a _ h => exact (builtFromRows_of_cumulative h).sound

/-- Every column that a program can get hold of is well-formed: its container consists of as few
chunks as possible, within their bounds, with masks that fit and counts that are right. -/
theorem Reachable.container_wellFormed {k : Kind} {c : Column k} (h : c.Reachable) :
    c.container.WellFormed := by
  obtain ⟨o, s, hstores⟩ := h.sound
  exact hstores.wellFormed

/-- Three rows in chunks of two. -/
theorem container_wellFormed_of_three_rows : ∃ c : Column .int32,
    (ofRows "a" [some 1, none, some 3] (.withChunkRows .int32 2)).result = .ok c ∧
      c.container.chunks.size = 2 ∧ c.container.WellFormed :=
  ⟨_, rfl, rfl, Reachable.container_wellFormed
    (.ofRows "a" [some 1, none, some 3] (.withChunkRows .int32 2) rfl)⟩

/-- A mutation of a reachable column that fails leaves the column exactly as it was. -/
theorem Mutation.state_of_error {k : Kind} {c : Column k} {e : ColumnError} (m : Mutation k)
    (hc : c.Reachable) (hm : ∀ other, m.operand? = some other → other.Reachable)
    (he : (m.run c).result = .error e) : (m.run c).state = c :=
  (m.settles hc.sound fun other h => (hm other h).sound).state_eq_of_error he

/-- A zero divisor is refused. -/
theorem Mutation.state_of_zero_divisor : ∃ c d : Column .int32,
    (ofRows "a" [some 7, none] {}).result = .ok c ∧
      (ofRows "b" [some 0, some 1] {}).result = .ok d ∧
      ((Mutation.binary (.arithmetic .divide) d).run c).result = .error (.divideByZero .int32) ∧
      ((Mutation.binary (.arithmetic .divide) d).run c).state = c :=
  ⟨_, _, rfl, rfl, rfl, Mutation.state_of_error (.binary (.arithmetic .divide) _)
    (.ofRows "a" [some 7, none] {} rfl)
    (by rintro _ ⟨⟩; exact .ofRows "b" [some 0, some 1] {} rfl) rfl⟩

end Columnar.Column
