import Columnar.Proofs.Report
import Columnar.Buffer
/-!
# How a buffer grows

An operation that adds values makes the allocation large enough first: to what is needed, or to
twice the size it has if that is more, but not past the ceiling. What an operation does, reports and
refuses is said here once and in full; `Buffer.Roomy` is what growth keeps, that the values fit the
allocation and the allocation does not go past the ceiling.
-/

namespace Columnar

variable {k : Kind}

namespace Buffer

variable {b : Buffer k} {needed : ℕ}

/-! ### Growth -/

/-- The size of the allocation once it has been made large enough for `needed` values. -/
def grown (b : Buffer k) (needed : ℕ) : ℕ :=
  if needed ≤ b.capacity then b.capacity else min (max needed (2 * b.capacity)) b.ceiling

/-- What is reported when the allocation is made large enough for `needed` values. -/
def growth (b : Buffer k) (needed : ℕ) : List Event :=
  if needed ≤ b.capacity then [] else [.bufferGrew k b.capacity (b.grown needed)]

/-- The buffer with its allocation made large enough for `needed` values. -/
def grow (b : Buffer k) (needed : ℕ) : Buffer k := { b with capacity := b.grown needed }

lemma reports_growFor (needed : ℕ) (b : Buffer k) :
    (growFor needed).Reports b () (b.grow needed) (b.growth needed) := by
  rw [Edit.Reports, growFor, grow, growth, grown]
  split_ifs <;> rfl

lemma reports_ensureRoom {additional : ℕ} (h : b.size + additional ≤ b.ceiling) :
    (ensureRoom additional).Reports b () (b.grow (b.size + additional))
      (b.growth (b.size + additional)) := by
  rw [Edit.Reports, ensureRoom]
  exact (if_pos h).trans (reports_growFor _ b)

lemma reports_append (v : k.Value) (h : b.size ≠ b.ceiling) :
    (append v).Reports b () { b.grow (b.size + 1) with values := b.values.push v }
      (b.growth (b.size + 1)) := by
  have hcheck := Edit.reports_checks (f := fun b : Buffer k =>
    if b.size = b.ceiling then .error (b.exceeded 1) else .ok ()) (if_neg h)
  have hread := Edit.reports_reads (fun b : Buffer k => b.size + 1) b
  exact hcheck.bind (hread.bind ((reports_growFor _ b).bind_updates _))

lemma reports_appendFill (v : k.Value) {count : ℕ} (h : b.size + count ≤ b.ceiling) :
    (appendFill v count).Reports b ()
      { b.grow (b.size + count) with values := b.values ++ Array.replicate count v }
      (b.growth (b.size + count)) :=
  (reports_ensureRoom h).bind_updates _

lemma reports_set {index : ℕ} (v : k.Value) (h : index < b.values.size) :
    (set index v).Reports b () { b with values := b.values.set index v h } [] :=
  dif_pos h

/-! ### Refusals -/

lemma declines_ensureRoom {additional : ℕ} (h : b.ceiling < b.size + additional) :
    (ensureRoom additional).Declines b (b.exceeded additional) :=
  if_neg (Nat.not_le.2 h)

lemma declines_append (v : k.Value) (h : b.size = b.ceiling) :
    (append v).Declines b (b.exceeded 1) :=
  Edit.Declines.bind (Edit.declines_checks (f := fun b : Buffer k =>
    if b.size = b.ceiling then .error (b.exceeded 1) else .ok ()) (if_pos h)) _

lemma declines_appendFill (v : k.Value) {count : ℕ} (h : b.ceiling < b.size + count) :
    (appendFill v count).Declines b (b.exceeded count) :=
  (declines_ensureRoom h).bind _

lemma declines_set {index : ℕ} (v : k.Value) (h : b.size ≤ index) :
    (set index v).Declines b (.indexOutOfRange index b.size) :=
  dif_neg (Nat.not_lt.2 h)

/-! ### Room -/

/-- The values fit the allocation, and the allocation does not go past the ceiling. -/
structure Roomy (b : Buffer k) : Prop where
  size_le : b.size ≤ b.capacity
  capacity_le : b.capacity ≤ b.ceiling

lemma grown_eq_self (h : needed ≤ b.capacity) : b.grown needed = b.capacity := if_pos h

lemma growth_eq_nil (h : needed ≤ b.capacity) : b.growth needed = [] := if_pos h

/-- Growth is reported exactly if the size of the allocation changes. -/
lemma growth_eq_ite (hneeded : needed ≤ b.ceiling) : b.growth needed =
    if b.grown needed = b.capacity then [] else [.bufferGrew k b.capacity (b.grown needed)] := by
  by_cases hle : needed ≤ b.capacity
  · rw [growth_eq_nil hle, if_pos (grown_eq_self hle)]
  · have hne : b.grown needed ≠ b.capacity := by
      rw [grown, if_neg hle]
      omega
    rw [growth, if_neg hle, if_neg hne]

namespace Roomy

lemma size_le_ceiling (h : b.Roomy) : b.size ≤ b.ceiling := h.size_le.trans h.capacity_le

/-- The allocation becomes large enough, and no larger than the ceiling. -/
lemma grown_bounds (h : b.Roomy) (hneeded : needed ≤ b.ceiling) :
    needed ≤ b.grown needed ∧ b.capacity ≤ b.grown needed ∧ b.grown needed ≤ b.ceiling := by
  have hcapacity := h.capacity_le
  rw [grown]
  split_ifs <;> omega

end Roomy

end Buffer

end Columnar
