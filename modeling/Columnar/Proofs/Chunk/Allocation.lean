import Columnar.Proofs.Chunk.Buffer
import Columnar.Proofs.Guarded
import Columnar.Proofs.Refinement
/-!
# The allocation of a buffer

The operations on a buffer are run beside those of the same names on a list, which know a ceiling
but no allocation. After any operations the values are those of the list, the allocation has room
for them and is within the ceiling, and the next operation is refused exactly if what it adds does
not fit below the ceiling. What has been reserved can be added without growth.

Growth is carried out a second time in the arithmetic of machine words, where doubling saturates, a
sum past the largest word is an overflow and a difference below zero is no number. For ceilings that
are words the two agree.
-/

namespace Columnar

variable {k : Kind}

/-- The operations on a buffer. -/
inductive BufferOp (k : Kind) where
  | append (v : k.Value)
  | fill (v : k.Value) (count : ℕ)
  /-- Room is made for further values. -/
  | reserve (additional : ℕ)
  | set (index : ℕ) (v : k.Value)
  | truncate (len : ℕ)

namespace BufferOp

variable {b : Buffer k} {ceiling n : ℕ} {l : List k.Value}

/-- The operation on a buffer. -/
def run : BufferOp k → Edit (Buffer k) Unit
  | append v => Buffer.append v
  | fill v count => Buffer.appendFill v count
  | reserve additional => Buffer.ensureRoom additional
  | set index v => Buffer.set index v
  | truncate len => Edit.updates (Buffer.truncate · len)

/-- The number of values for which the operation needs room below the ceiling, if it needs any. -/
def demand? : BufferOp k → Option ℕ
  | append _ => some 1
  | fill _ count | reserve count => some count
  | set .. | truncate _ => none

/-- A list with room for `n` more values below the ceiling becomes `next`. Otherwise the length it
would have is refused, up to the largest 64-bit number. -/
def below (ceiling : ℕ) (l : List k.Value) (n : ℕ) (next : List k.Value) :
    Except ColumnError (List k.Value) :=
  if l.length + n ≤ ceiling then .ok next
  else .error (.capacityExceeded (min (l.length + n) (UInt64.size - 1)) ceiling)

/-- The operation on a list that is not to get longer than a ceiling. -/
def onList (ceiling : ℕ) (l : List k.Value) : BufferOp k → Except ColumnError (List k.Value)
  | append v => below ceiling l 1 (l ++ [v])
  | fill v count => below ceiling l count (l ++ List.replicate count v)
  | reserve additional => below ceiling l additional l
  | set index v =>
    if index < l.length then .ok (l.set index v) else .error (.indexOutOfRange index l.length)
  | truncate len => .ok (l.take len)

/-- The buffer after a list of operations, each of them carried out on what the ones before it left
behind. -/
def runAll (ceiling : ℕ) (ops : List (BufferOp k)) : Buffer k :=
  ops.foldl (fun b op => (op.run b).state) { ceiling }

/-- The list after a list of operations. An operation that is refused leaves it as it was. -/
def listAfter (ceiling : ℕ) (ops : List (BufferOp k)) : List k.Value :=
  ops.foldl (fun l op => match op.onList ceiling l with | .ok next => next | .error _ => l) []

end BufferOp

/-! ### Operations beside those on a list -/

namespace Buffer

/-- The buffer holds the values of a list, in an allocation within the ceiling. -/
structure Holds (ceiling : ℕ) (b : Buffer k) (l : List k.Value) : Prop extends b.Roomy where
  ceiling_eq : b.ceiling = ceiling
  toList_eq : b.values.toList = l

variable {b t : Buffer k} {ceiling needed n : ℕ} {l next : List k.Value}

lemma holds_new (ceiling : ℕ) : Holds ceiling { ceiling } ([] : List k.Value) :=
  ⟨⟨Nat.le_refl 0, Nat.zero_le _⟩, rfl, rfl⟩

namespace Holds

lemma size_eq (h : b.Holds ceiling l) : b.size = l.length := by
  rw [← h.toList_eq, size, Array.length_toList]

/-- Other values in an allocation that was made large enough for them. -/
lemma grow (h : b.Holds ceiling l) (hneeded : needed ≤ ceiling) {values : Array k.Value}
    (hvalues : values.toList = next) (hsize : values.size ≤ needed) :
    Holds ceiling { b.grow needed with values } next := by
  have hbounds := h.grown_bounds (h.ceiling_eq ▸ hneeded)
  exact ⟨⟨hsize.trans hbounds.1, hbounds.2.2⟩, h.ceiling_eq, hvalues⟩

/-- Other values, no more of them than there were. -/
lemma withValues (h : b.Holds ceiling l) {values : Array k.Value} (hvalues : values.toList = next)
    (hsize : values.size ≤ b.size) : Holds ceiling { b with values } next :=
  ⟨⟨hsize.trans h.size_le, h.capacity_le⟩, h.ceiling_eq, hvalues⟩

/-- The refusal of the buffer is that of the list. -/
lemma exceeded_eq (h : b.Holds ceiling l) (n : ℕ) :
    b.exceeded n = .capacityExceeded (min (l.length + n) (UInt64.size - 1)) ceiling := by
  rw [exceeded, h.size_eq, h.ceiling_eq]

lemma refines_below (h : b.Holds ceiling l) {m : Edit (Buffer k) Unit}
    (hok : b.size + n ≤ b.ceiling → ∃ t, m.Yields b () t ∧ t.Holds ceiling next)
    (herror : b.ceiling < b.size + n → m.Refuses b (b.exceeded n)) :
    m.Refines b (Holds ceiling) (BufferOp.below ceiling l n next) := by
  rw [h.size_eq, h.ceiling_eq] at hok herror
  rw [BufferOp.below]
  split_ifs with hle
  · exact hok hle
  · rw [← h.exceeded_eq]
    exact herror (Nat.not_le.1 hle)

end Holds

end Buffer

namespace BufferOp

variable {b t : Buffer k} {ceiling n : ℕ} {l : List k.Value}

/-- One operation on a buffer is the operation on the list it holds. -/
theorem simulates (op : BufferOp k) (h : b.Holds ceiling l) :
    op.run.Refines b (Buffer.Holds ceiling) (op.onList ceiling l) := by
  have hsize := h.size_eq
  have hceiling := h.ceiling_eq
  cases op with
  | append v =>
    refine h.refines_below (fun hle => ?_) fun hlt => ?_
    · refine ⟨_, (Buffer.reports_append v (by omega)).yields, h.grow (by omega) ?_ ?_⟩
      · rw [Array.toList_push, h.toList_eq]
      · exact (Array.size_push v).le
    · -- a buffer at its ceiling is recognized by its size
      have hle := h.size_le_ceiling
      exact (Buffer.declines_append v (by omega)).refuses
  | fill v count =>
    refine h.refines_below (fun hle => ?_) fun hlt => (Buffer.declines_appendFill v hlt).refuses
    refine ⟨_, (Buffer.reports_appendFill v hle).yields, h.grow (by omega) ?_ ?_⟩
    · rw [Array.toList_append, Array.toList_replicate, h.toList_eq]
    · rw [Array.size_append, Array.size_replicate]
      rfl
  | reserve additional =>
    refine h.refines_below (fun hle => ?_) fun hlt => (Buffer.declines_ensureRoom hlt).refuses
    exact ⟨_, (Buffer.reports_ensureRoom hle).yields,
      h.grow (by omega) h.toList_eq (Nat.le_add_right _ _)⟩
  | set index v =>
    rw [onList, ← hsize]
    split_ifs with hlt
    · have hlt' : index < b.values.size := hlt
      refine ⟨_, (Buffer.reports_set v hlt').yields, h.withValues ?_ (Array.size_set hlt').le⟩
      rw [Array.toList_set, h.toList_eq]
    · exact (Buffer.declines_set v (Nat.not_lt.1 hlt)).refuses
  | truncate len =>
    refine ⟨_, Edit.yields_updates _ b, h.withValues (by simp [h.toList_eq]) ?_⟩
    simp [Buffer.size]

/-- What a list of operations leaves behind, by induction on the list from its end. -/
theorem holds_runAll (ceiling : ℕ) (ops : List (BufferOp k)) :
    (runAll ceiling ops).Holds ceiling (listAfter ceiling ops) := by
  induction ops using List.reverseRecOn with
  | nil => exact Buffer.holds_new ceiling
  | append_singleton ops op ih =>
    have hstep := op.simulates ih
    simp only [runAll, listAfter, List.foldl_concat] at ih hstep ⊢
    generalize ops.foldl _ ({ ceiling } : Buffer k) = b at ih hstep ⊢
    generalize ops.foldl _ ([] : List k.Value) = l at ih hstep ⊢
    rcases hlist : op.onList ceiling l with e | next
    · rw [hlist] at hstep
      simp only
      rwa [Edit.Refuses.state hstep]
    · rw [hlist] at hstep
      obtain ⟨t, ht, hholds⟩ := hstep
      simp only
      rwa [ht.state]

/-- Doubling an allocation for four values is cut off at the ceiling. -/
example : (runAll 5 [.reserve 4, .fill 7 4, .reserve 1] : Buffer .uint8).capacity = 5 := by
  decide

/-! ### Reports -/

/-- The operation reports growth, once, exactly if it changes the size of the allocation. -/
def ReportsGrowth (m : Edit (Buffer k) Unit) (b : Buffer k) : Prop :=
  (m b).events = if (m b).state.capacity = b.capacity then #[]
    else #[.bufferGrew k b.capacity (m b).state.capacity]

lemma ReportsGrowth.of_reports {m : Edit (Buffer k) Unit} {needed : ℕ}
    (hneeded : needed ≤ b.ceiling) (hm : m.Reports b () t (b.growth needed))
    (ht : t.capacity = b.grown needed) :
    ReportsGrowth m b := by
  rw [ReportsGrowth, hm.events_eq, hm.state, ht, Buffer.growth_eq_ite hneeded]
  split_ifs <;> rfl

lemma ReportsGrowth.of_declines {m : Edit (Buffer k) Unit} {e : ColumnError} (hm : m.Declines b e) :
    ReportsGrowth m b := by
  rw [ReportsGrowth, show m b = _ from hm]
  exact (if_pos rfl).symm

theorem reportsGrowth_run (op : BufferOp k) (h : b.Roomy) : ReportsGrowth op.run b := by
  have hle := h.size_le_ceiling
  cases op with
  | append v =>
    by_cases hroom : b.size = b.ceiling
    · exact .of_declines (Buffer.declines_append v hroom)
    · exact .of_reports (by omega) (Buffer.reports_append v hroom) rfl
  | fill v count =>
    by_cases hroom : b.size + count ≤ b.ceiling
    · exact .of_reports hroom (Buffer.reports_appendFill v hroom) rfl
    · exact .of_declines (Buffer.declines_appendFill v (Nat.not_le.1 hroom))
  | reserve additional =>
    by_cases hroom : b.size + additional ≤ b.ceiling
    · exact .of_reports hroom (Buffer.reports_ensureRoom hroom) rfl
    · exact .of_declines (Buffer.declines_ensureRoom (Nat.not_le.1 hroom))
  | set index v =>
    by_cases hindex : index < b.values.size
    · rw [ReportsGrowth, run, (Buffer.reports_set v hindex).events_eq,
        (Buffer.reports_set v hindex).state]
      exact (if_pos rfl).symm
    · exact .of_declines (Buffer.declines_set v (Nat.not_lt.1 hindex))
  | truncate len => exact (if_pos rfl).symm

/-! ### Reserved room -/

/-- Whether the operation adds values. -/
def isAdd : BufferOp k → Bool
  | append _ | fill .. => true
  | _ => false

/-- The number of values that the operation adds. -/
def added : BufferOp k → ℕ
  | append _ => 1
  | fill _ count => count
  | _ => 0

/-- What fits the allocation is added without growth and without a report. -/
lemma exists_reports_add {op : BufferOp k} (hop : op.isAdd) (hroom : b.size + op.added ≤ b.capacity)
    (hcapacity : b.capacity ≤ b.ceiling) : ∃ t, op.run.Reports b () t [] ∧
      t.size = b.size + op.added ∧ t.capacity = b.capacity ∧ t.ceiling = b.ceiling := by
  cases op with
  | append v =>
    have hroom : b.size + 1 ≤ b.capacity := hroom
    have happend := Buffer.reports_append v (show b.size ≠ b.ceiling by omega)
    rw [Buffer.growth_eq_nil hroom] at happend
    exact ⟨_, happend, Array.size_push v, Buffer.grown_eq_self hroom, rfl⟩
  | fill v count =>
    have hroom : b.size + count ≤ b.capacity := hroom
    have hfill := Buffer.reports_appendFill v (hroom.trans hcapacity)
    rw [Buffer.growth_eq_nil hroom] at hfill
    exact ⟨_, hfill, by simp [Buffer.size, added], Buffer.grown_eq_self hroom, rfl⟩
  | reserve _ | set _ _ | truncate _ => cases hop

/-- Many operations that add no more than fits the allocation, by induction on their list. -/
theorem exists_reports_adds {adds : List (BufferOp k)} (hadds : ∀ op ∈ adds, op.isAdd)
    (hroom : b.size + (adds.map added).sum ≤ b.capacity) (hcapacity : b.capacity ≤ b.ceiling) :
    ∃ t, (Edit.forEach adds run).Reports b () t [] ∧ t.capacity = b.capacity := by
  induction adds generalizing b with
  | nil => exact ⟨b, Edit.reports_pure () b, rfl⟩
  | cons op adds ih =>
    rw [List.forall_mem_cons] at hadds
    rw [List.map_cons, List.sum_cons] at hroom
    obtain ⟨t, ht, hsize, htcapacity, htceiling⟩ :=
      exists_reports_add hadds.1 (by omega : b.size + op.added ≤ b.capacity) hcapacity
    obtain ⟨u, hu, hucapacity⟩ := ih (b := t) hadds.2 (by omega) (by omega)
    refine ⟨u, ?_, hucapacity.trans htcapacity⟩
    rw [Edit.forEach_cons]
    exact ht.bind hu

end BufferOp

/-! ### Machine words -/

/-- The sum of two words, unless it is no word. -/
def addWord? (a b : ℕ) : Option ℕ := if a + b < UInt64.size then some (a + b) else none

namespace Buffer

variable {b : Buffer k} {needed : ℕ}

/-- Growth in the arithmetic of words. Doubling stops at the largest word, and what is reserved is
the difference of the target and the number of values, on top of these. -/
def growFor? (needed : ℕ) (b : Buffer k) : Option (Buffer k) :=
  if needed ≤ b.capacity then some b
  else do
    let doubled := min (2 * b.capacity) (UInt64.size - 1)
    let more ← sub? (min (max needed doubled) b.ceiling) b.size
    return { b with capacity := max b.capacity (b.size + more) }

/-- The buffer with further values, for which the allocation has to have room. -/
def extend? (b : Buffer k) (values : Array k.Value) : Option (Buffer k) :=
  if b.size + values.size ≤ b.capacity then some { b with values := b.values ++ values } else none

/-- `Buffer.ensureRoom` in the arithmetic of words: a sum that is no word is past every ceiling. -/
def ensureRoom? (b : Buffer k) (additional : ℕ) : Guarded (Buffer k) :=
  match (addWord? b.size additional).filter (· ≤ b.ceiling) with
  | some needed => liftM (growFor? needed b)
  | none => throw (b.exceeded additional)

/-- `Buffer.append` in the arithmetic of words, where the next size has to be a word. -/
def append? (b : Buffer k) (v : k.Value) : Guarded (Buffer k) := do
  if b.size = b.ceiling then throw (b.exceeded 1)
  let grown ← growFor? (← addWord? b.size 1) b
  grown.extend? #[v]

/-- `Buffer.appendFill` in the arithmetic of words. -/
def appendFill? (b : Buffer k) (v : k.Value) (count : ℕ) : Guarded (Buffer k) := do
  let grown ← b.ensureRoom? count
  grown.extend? (Array.replicate count v)

namespace Roomy

/-- No difference is below zero, and a product that saturates is cut off by the ceiling. -/
lemma growFor?_eq (h : b.Roomy) (hceiling : b.ceiling < UInt64.size)
    (hneeded : needed ≤ b.ceiling) : growFor? needed b = some (b.grow needed) := by
  have hsize := h.size_le
  have hcapacity := h.capacity_le
  rw [growFor?, grow]
  by_cases hle : needed ≤ b.capacity
  · rw [if_pos hle, grown_eq_self hle]
  · have htarget : min (max needed (min (2 * b.capacity) (UInt64.size - 1))) b.ceiling
        = b.grown needed := by
      rw [grown, if_neg hle]
      omega
    have hbounds := h.grown_bounds hneeded
    have hmore : max b.capacity (b.size + (b.grown needed - b.size)) = b.grown needed := by omega
    simp only [if_neg hle, htarget, sub?_eq_some (hsize.trans hbounds.2.1), Option.bind_eq_bind,
      Option.bind_some, hmore]
    rfl

lemma extend?_grow (h : b.Roomy) (values : Array k.Value)
    (hle : b.size + values.size ≤ b.ceiling) :
    (b.grow (b.size + values.size)).extend? values
      = some { b.grow (b.size + values.size) with values := b.values ++ values } :=
  if_pos (h.grown_bounds hle).1

lemma ensureRoom?_returns (h : b.Roomy) (hceiling : b.ceiling < UInt64.size) (additional : ℕ) :
    (b.ensureRoom? additional).Returns
      (if b.size + additional ≤ b.ceiling then .ok (b.grow (b.size + additional))
        else .error (b.exceeded additional)) := by
  rw [ensureRoom?, addWord?]
  by_cases hle : b.size + additional ≤ b.ceiling
  · rw [if_pos hle, if_pos (by omega), Option.filter_some, if_pos (by simpa using hle)]
    exact Guarded.returns_some (h.growFor?_eq hceiling hle)
  · have hnone : (if b.size + additional < UInt64.size then some (b.size + additional)
        else none).filter (fun needed => needed ≤ b.ceiling) = none := by
      split_ifs
      · rw [Option.filter_some, if_neg (by simpa using hle)]
      · rfl
    rw [if_neg hle, hnone]
    exact Guarded.returns_throw _

lemma append?_returns (h : b.Roomy) (hceiling : b.ceiling < UInt64.size) (v : k.Value) :
    (b.append? v).Returns ((append v).runOn b).result := by
  rw [append?]
  by_cases hfull : b.size = b.ceiling
  · rw [(declines_append v hfull).result_runOn, if_pos hfull]
    exact Guarded.returns_throw _
  · have hroom : b.size + 1 ≤ b.ceiling := by
      have := h.size_le_ceiling
      omega
    have hadd : addWord? b.size 1 = some (b.size + 1) := if_pos (by omega)
    rw [(reports_append v hfull).yields.result_runOn, if_neg hfull]
    refine (Guarded.returns_some hadd).ok_bind ?_
    refine (Guarded.returns_some (h.growFor?_eq hceiling hroom)).ok_bind ?_
    exact Guarded.returns_some (h.extend?_grow #[v] hroom)

lemma appendFill?_returns (h : b.Roomy) (hceiling : b.ceiling < UInt64.size) (v : k.Value)
    (count : ℕ) : (b.appendFill? v count).Returns ((appendFill v count).runOn b).result := by
  have hreserve := h.ensureRoom?_returns hceiling count
  rw [appendFill?]
  by_cases hroom : b.size + count ≤ b.ceiling
  · rw [(reports_appendFill v hroom).yields.result_runOn]
    rw [if_pos hroom] at hreserve
    have hsize : (Array.replicate count v).size = count := Array.size_replicate
    have hextend := h.extend?_grow (Array.replicate count v) (by rwa [hsize])
    rw [hsize] at hextend
    exact hreserve.ok_bind (Guarded.returns_some hextend)
  · rw [(declines_appendFill v (Nat.not_le.1 hroom)).result_runOn]
    rw [if_neg hroom] at hreserve
    exact hreserve.bind (g := fun _ => .error (b.exceeded count)) fun _ hne => nomatch hne

end Roomy

end Buffer

namespace BufferOp

variable {b : Buffer k}

/-- The operation in the arithmetic of words, on a buffer of one's own. -/
def run? (b : Buffer k) : BufferOp k → Guarded (Buffer k)
  | append v => b.append? v
  | fill v count => b.appendFill? v count
  | reserve additional => b.ensureRoom? additional
  | set index v => liftM ((Buffer.set index v).runOn b).result
  | truncate len => pure (b.truncate len)

/-- No operation meets a sum or a difference that is no word. -/
theorem run?_returns (op : BufferOp k) (h : b.Roomy) (hceiling : b.ceiling < UInt64.size) :
    (op.run? b).Returns (op.run.runOn b).result := by
  cases op with
  | append v => exact h.append?_returns hceiling v
  | fill v count => exact h.appendFill?_returns hceiling v count
  | reserve additional =>
    have hreserve := h.ensureRoom?_returns hceiling additional
    by_cases hroom : b.size + additional ≤ b.ceiling
    · rw [run, (Buffer.reports_ensureRoom hroom).yields.result_runOn]
      rwa [if_pos hroom] at hreserve
    · rw [run, (Buffer.declines_ensureRoom (Nat.not_le.1 hroom)).result_runOn]
      rwa [if_neg hroom] at hreserve
  | set index v => exact Guarded.returns_except _
  | truncate len => exact Guarded.returns_pure _

end BufferOp

/-! ### The contract of growth -/

/-- A buffer that grows within a ceiling, and what that means for the next operation. -/
structure Buffer.GrowsWithin (ceiling : ℕ) (b : Buffer k) (l : List k.Value) : Prop where
  toList_eq : b.values.toList = l
  ceiling_eq : b.ceiling = ceiling
  size_le_capacity : b.size ≤ b.capacity
  capacity_le_ceiling : b.capacity ≤ ceiling
  /-- The number of values that can still be added is not below zero. -/
  remaining_eq : sub? b.ceiling b.size = some b.remaining
  /-- What needs room is refused exactly if it would go past the ceiling. -/
  refused_iff (op : BufferOp k) (n : ℕ) : op.demand? = some n →
    ((op.run b).result = .error (.capacityExceeded (min (b.size + n) (UInt64.size - 1)) ceiling) ↔
      ceiling < b.size + n)
  /-- What needs room succeeds in all other cases. -/
  accepted_iff (op : BufferOp k) (n : ℕ) : op.demand? = some n →
    ((op.run b).result = .ok () ↔ b.size + n ≤ ceiling)
  /-- What is refused changes neither the values nor the allocation, and is not reported. -/
  unchanged (op : BufferOp k) (e : ColumnError) :
    (op.run b).result = .error e → (op.run b).state = b ∧ (op.run b).events = #[]
  /-- Any operation, also one that overwrites, succeeds or fails as it does on the list. -/
  result_eq (op : BufferOp k) : (op.run b).result = (op.onList ceiling l).map fun _ => ()
  /-- Growth is what is reported, and it is reported once. -/
  events_eq (op : BufferOp k) : (op.run b).events =
    if (op.run b).state.capacity = b.capacity then #[]
    else #[.bufferGrew k b.capacity (op.run b).state.capacity]
  /-- Room that was made is there: as many values as it was made for are added, one by one or many
  at a time, without growth and without a report. -/
  reserved (n : ℕ) (t : Buffer k) (adds : List (BufferOp k)) :
    (Buffer.ensureRoom n).Yields b () t → (∀ op ∈ adds, op.isAdd) → (adds.map (·.added)).sum ≤ n →
      ∃ u, (Edit.forEach adds BufferOp.run).Reports t () u [] ∧ u.capacity = t.capacity
  /-- In the arithmetic of words, every operation ends as it does here. -/
  within_words (op : BufferOp k) : ceiling < UInt64.size →
    (op.run? b).Returns (op.run.runOn b).result

namespace Buffer.Holds

variable {b : Buffer k} {ceiling n : ℕ} {l : List k.Value}

lemma result_run (h : b.Holds ceiling l) (op : BufferOp k) :
    (op.run b).result = (op.onList ceiling l).map fun _ => () := by
  have hrefines := op.simulates h
  rcases hlist : op.onList ceiling l with e | next
  · rw [hlist] at hrefines
    exact hrefines.result
  · rw [hlist] at hrefines
    obtain ⟨t, ht, -⟩ := hrefines
    exact ht.result

/-- An operation that needs room succeeds or is refused, by what it needs. -/
lemma result_run_of_demand (h : b.Holds ceiling l) (op : BufferOp k) (hop : op.demand? = some n) :
    (op.run b).result = if b.size + n ≤ ceiling then .ok ()
      else .error (.capacityExceeded (min (b.size + n) (UInt64.size - 1)) ceiling) := by
  rw [h.result_run, h.size_eq]
  cases op with
  | append _ | fill _ _ | reserve _ =>
    cases hop
    rw [BufferOp.onList, BufferOp.below]
    split_ifs <;> rfl
  | set _ _ | truncate _ => cases hop

lemma unchanged (h : b.Holds ceiling l) {op : BufferOp k} {e : ColumnError}
    (he : (op.run b).result = .error e) :
    (op.run b).state = b ∧ (op.run b).events = #[] := by
  have hrefines := op.simulates h
  rw [hrefines.eq_error_of_result he] at hrefines
  have hstate : (op.run b).state = b := Edit.Refuses.state hrefines
  refine ⟨hstate, ?_⟩
  rw [op.reportsGrowth_run h.toRoomy, hstate, if_pos rfl]

/-- Making room leaves the values as they were, and room for as many as asked for. -/
lemma of_ensureRoom (h : b.Holds ceiling l) {t : Buffer k}
    (ht : (ensureRoom n).Yields b () t) :
    t.size + n ≤ t.capacity ∧ t.capacity ≤ t.ceiling := by
  have hroom : b.size + n ≤ b.ceiling := by
    rw [h.ceiling_eq]
    by_contra hlt
    have hresult := h.result_run_of_demand (.reserve n) rfl
    rw [if_neg hlt] at hresult
    cases ht.result.symm.trans hresult
  have hbounds := h.grown_bounds hroom
  rw [← ht.state, (reports_ensureRoom hroom).state]
  exact ⟨hbounds.1, hbounds.2.2⟩

end Buffer.Holds

/-- **A buffer grows within its ceiling.** Whatever operations a new buffer is given, in any order
and also with some of them refused, it has the values of a list that is given the same operations,
and grows within its ceiling. -/
theorem BufferOp.runAll_growsWithin (ceiling : ℕ) (ops : List (BufferOp k)) :
    (runAll ceiling ops).GrowsWithin ceiling (listAfter ceiling ops) := by
  have h := holds_runAll ceiling ops
  generalize runAll ceiling ops = b at h ⊢
  generalize listAfter ceiling ops = l at h ⊢
  have hceiling := h.ceiling_eq
  exact {
    toList_eq := h.toList_eq
    ceiling_eq := hceiling
    size_le_capacity := h.size_le
    capacity_le_ceiling := hceiling ▸ h.capacity_le
    remaining_eq := sub?_eq_some h.size_le_ceiling
    refused_iff := fun op n hop => by
      rw [h.result_run_of_demand op hop]
      split_ifs with hle <;> simp <;> omega
    accepted_iff := fun op n hop => by
      rw [h.result_run_of_demand op hop]
      split_ifs with hle <;> simp <;> omega
    unchanged := fun op e he => h.unchanged he
    result_eq := h.result_run
    events_eq := fun op => op.reportsGrowth_run h.toRoomy
    reserved := fun n t adds ht hadds hsum => by
      obtain ⟨hroom, hcapacity⟩ := h.of_ensureRoom ht
      exact exists_reports_adds hadds ((Nat.add_le_add_left hsum _).trans hroom) hcapacity
    within_words := fun op hword => op.run?_returns h.toRoomy (hceiling ▸ hword) }

end Columnar
