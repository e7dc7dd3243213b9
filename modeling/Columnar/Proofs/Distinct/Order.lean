import Columnar.Proofs.Distinct.Count
import Columnar.Proofs.Distinct.Registers
/-!
# Counting in any order

A counter that spills puts the hashes of its set into a sketch in the order in which it comes upon
them, and a set has no order of its own. `Run` is a run of a counter in which this order is
arbitrary. When a counter spills depends on the order and the repetitions of the words, but where it
gets does not: after each word, it holds the hashes of all words so far, in a set if they are no
more than its limit and in a sketch otherwise, and a sketch is determined by its hashes. So two runs
over the same set of words end in the same state.
-/

namespace Columnar.Distinct.Counter

variable {c d e : Counter} {precision rows : ℕ} {hashes : Finset UInt64} {words : List UInt64}
  {bits : UInt64}

/-! ### Runs -/

/-- A counter takes in a word. If it spills, the hashes of its set go into the sketch in any
order. -/
inductive Takes (bits : UInt64) : Counter → Counter → Prop
  | keep {seen : Std.HashSet UInt64} {precision : ℕ} :
    seen.size < exactLimit precision ∨ mix bits ∈ seen →
    Takes bits (.exact seen precision) (.exact (seen.insert (mix bits)) precision)
  | spill {seen : Std.HashSet UInt64} {precision : ℕ} {order : List UInt64} :
    exactLimit precision ≤ seen.size → mix bits ∉ seen → order.Perm seen.toList →
    Takes bits (.exact seen precision)
      (.sketch ((order.foldl Sketch.insert (Sketch.empty precision)).insert (mix bits)))
  | add {s : Sketch} : Takes bits (.sketch s) (.sketch (s.insert (mix bits)))

/-- A counter takes in the words of a list, one after the other. -/
inductive Run : Counter → List UInt64 → Counter → Prop
  | nil {c : Counter} : Run c [] c
  | cons {c d e : Counter} {bits : UInt64} {words : List UInt64} :
    Takes bits c d → Run d words e → Run c (bits :: words) e

/-- What the counter does with a word is one of the ways to take it in. -/
lemma exists_takes (bits : UInt64) (c : Counter) :
    ∃ d, (Counter.insert bits).Yields c () d ∧ Takes bits c d := by
  rcases c with ⟨seen, precision⟩ | s
  · by_cases hfull : exactLimit precision ≤ seen.size && !seen.contains (mix bits)
    · refine ⟨_, ⟨_, if_pos hfull⟩, ?_⟩
      obtain ⟨hsize, hnew⟩ := spills_iff.1 hfull
      rw [spill, Std.HashSet.fold_eq_foldl_toList]
      exact .spill hsize hnew (List.Perm.refl _)
    · refine ⟨_, ⟨_, if_neg hfull⟩, .keep ?_⟩
      rwa [spills_iff, not_and_or, not_not, not_le] at hfull
  · exact ⟨_, ⟨_, rfl⟩, .add⟩

/-- What the counter does with a list of words is one of the runs over it. -/
lemma exists_run (words : List UInt64) (c : Counter) :
    ∃ d, (Edit.forEach words Counter.insert).Yields c () d ∧ Run c words d := by
  induction words generalizing c with
  | nil => exact ⟨c, Edit.yields_pure () c, .nil⟩
  | cons bits words ih =>
    obtain ⟨d, hword, htakes⟩ := exists_takes bits c
    obtain ⟨e, hwords, hrun⟩ := ih d
    refine ⟨e, ?_, .cons htakes hrun⟩
    rw [Edit.forEach_cons]
    exact hword.bind hwords

/-! ### States -/

/-- The counter holds the hashes of a set: as they are if they are no more than twice the registers
of a sketch, and in a sketch if they are more. -/
def Holds (precision : ℕ) (hashes : Finset UInt64) : Counter → Prop
  | .exact seen p =>
    p = precision ∧ (∀ hash, hash ∈ seen ↔ hash ∈ hashes) ∧ hashes.card ≤ 2 * 2 ^ precision
  | .sketch s => s.Holds precision hashes ∧ 2 * 2 ^ precision < hashes.card

/-- Two counters are in the same state. It does not matter how their sets are laid out. -/
def SameState : Counter → Counter → Prop
  | .exact seen precision, .exact seen' precision' =>
    precision = precision' ∧ ∀ hash, hash ∈ seen ↔ hash ∈ seen'
  | .sketch s, .sketch t => s = t
  | _, _ => False

lemma exactLimit_eq (precision : ℕ) : exactLimit precision = 2 * 2 ^ precision :=
  Nat.shiftLeft_eq 2 precision

lemma precisionFor_pos (rows : ℕ) : 0 < precisionFor rows :=
  Nat.lt_of_lt_of_le (by decide : 0 < minPrecision) (le_min (le_max_right _ _) (by decide))

lemma precisionFor_le (rows : ℕ) : precisionFor rows ≤ 64 :=
  (min_le_right _ _).trans (by decide)

lemma SameState.estimate_eq (h : c.SameState d) : c.estimate = d.estimate := by
  rcases c with ⟨seen, p⟩ | s <;> rcases d with ⟨seen', q⟩ | t
  · exact (Std.HashSet.Equiv.of_forall_mem_iff h.2).size_eq
  · exact h.elim
  · exact h.elim
  · exact congrArg Sketch.estimate h

namespace Holds

/-- The hashes determine the state. -/
lemma sameState (hc : c.Holds precision hashes) (hd : d.Holds precision hashes) :
    c.SameState d := by
  rcases c with ⟨seen, p⟩ | s <;> rcases d with ⟨seen', q⟩ | t
  · exact ⟨hc.1.trans hd.1.symm, fun hash => (hc.2.1 hash).trans (hd.2.1 hash).symm⟩
  · exact absurd hc.2.2 (not_le.2 hd.2)
  · exact absurd hd.2.2 (not_le.2 hc.2)
  · exact hc.1.unique hd.1

/-- One word, also if the counter spills on it. -/
lemma takes (h : c.Holds precision hashes) (hpos : 0 < precision) (hle : precision ≤ 64)
    (htakes : Takes bits c d) : d.Holds precision (Insert.insert (mix bits) hashes) := by
  cases htakes with
  | @keep seen p hroom =>
    obtain ⟨rfl, hmem, hcard⟩ := h
    refine ⟨rfl, mem_insert_mix hmem bits, ?_⟩
    rcases hroom with hroom | hseen
    · rw [size_eq_card hmem, exactLimit_eq] at hroom
      exact (Finset.card_insert_le _ _).trans hroom
    · rwa [Finset.insert_eq_of_mem ((hmem _).1 hseen)]
  | @spill seen p order hfull hnew horder =>
    obtain ⟨rfl, hmem, -⟩ := h
    have hset : order.toFinset = hashes := by
      ext hash
      rw [List.mem_toFinset, horder.mem_iff, Std.HashSet.mem_toList, hmem]
    have hsketch := Sketch.holds_foldl_insert hpos hle order
    rw [hset] at hsketch
    refine ⟨hsketch.insert hpos hle _, ?_⟩
    rw [Finset.card_insert_of_notMem (hnew ∘ (hmem _).2), ← exactLimit_eq, ← size_eq_card hmem]
    exact Nat.lt_succ_of_le hfull
  | add =>
    obtain ⟨hsketch, hcard⟩ := h
    exact ⟨hsketch.insert hpos hle _,
      hcard.trans_le (Finset.card_le_card (Finset.subset_insert _ _))⟩

/-- The words of a list, one after the other. -/
lemma run (h : c.Holds precision hashes) (hpos : 0 < precision) (hle : precision ≤ 64)
    (hrun : Run c words d) : d.Holds precision (hashes ∪ words.toFinset.image mix) := by
  induction hrun generalizing hashes with
  | nil => simpa using h
  | cons htakes _ ih =>
    have hrest := ih (h.takes hpos hle htakes)
    rwa [insert_union_image_mix] at hrest

end Holds

lemma holds_forRows (rows : ℕ) : (forRows rows).Holds (precisionFor rows) ∅ :=
  ⟨rfl, by simp, by simp⟩

/-- What a run leads to depends on the set of the words. -/
lemma Run.holds (hrun : Run (forRows rows) words d) :
    d.Holds (precisionFor rows) (words.toFinset.image mix) := by
  have h := (holds_forRows rows).run (precisionFor_pos rows) (precisionFor_le rows) hrun
  rwa [Finset.empty_union] at h

/-- Two runs over the same set of words end in the same state. -/
theorem Run.sameState {words' : List UInt64} (hset : ∀ bits, bits ∈ words ↔ bits ∈ words')
    (hc : Run (forRows rows) words c) (hd : Run (forRows rows) words' d) : c.SameState d := by
  have hwords : words.toFinset = words'.toFinset := by
    ext bits
    rw [List.mem_toFinset, List.mem_toFinset, hset]
  exact hc.holds.sameState (hwords ▸ hd.holds)

end Columnar.Distinct.Counter
