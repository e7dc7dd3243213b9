import Mathlib
import Columnar.Distinct.Sketch
/-!
# Sketches as maxima

A sketch that has taken in a set of hashes has in each register the largest rank of the hashes of
the set that fall in it. This determines the sketch: it depends neither on the order in which the
hashes came nor on how often they came.
-/

namespace Columnar.Distinct.Sketch

/-- The largest rank of the hashes of a set that fall in a register; zero if there is none. -/
def maxRank (precision : ℕ) (hashes : Finset UInt64) (register : ℕ) : ℕ :=
  {hash ∈ hashes | registerOf precision hash = register}.sup fun hash =>
    (rankOf precision hash).toNat

/-- The sketch has taken in the hashes of a set, and no others. -/
structure Holds (s : Sketch) (precision : ℕ) (hashes : Finset UInt64) : Prop where
  precision_eq : s.precision = precision
  size_eq : s.registers.size = 2 ^ precision
  /-- Every hash falls in one of the registers. -/
  registerOf_lt : ∀ hash ∈ hashes, registerOf precision hash < s.registers.size
  register_eq : ∀ register (h : register < s.registers.size),
    s.registers[register].toNat = maxRank precision hashes register

variable {s t : Sketch} {precision : ℕ} {hashes : Finset UInt64}

/-- Every hash names a register that is there. -/
lemma registerOf_lt (hpos : 0 < precision) (hle : precision ≤ 64) (hash : UInt64) :
    registerOf precision hash < 2 ^ precision := by
  have hplaces : (UInt64.ofNat (64 - precision)).toNat % 64 = 64 - precision := by
    have hlt : 64 - precision < UInt64.size := by
      rw [UInt64.size]
      omega
    rw [UInt64.toNat_ofNat_of_lt' hlt, Nat.mod_eq_of_lt (by omega)]
  have hsplit : 2 ^ precision * 2 ^ (64 - precision) = 2 ^ 64 := by
    rw [← Nat.pow_add, Nat.add_sub_cancel' hle]
  rw [registerOf, UInt64.toNat_shiftRight, hplaces, Nat.shiftRight_eq_div_pow,
    Nat.div_lt_iff_lt_mul (by positivity), hsplit]
  exact hash.toNat_lt

/-- A further hash counts in the register that it falls in. -/
lemma maxRank_insert (precision : ℕ) (hashes : Finset UInt64) (hash : UInt64) (register : ℕ) :
    maxRank precision (Insert.insert hash hashes) register =
      if registerOf precision hash = register then
        max (maxRank precision hashes register) (rankOf precision hash).toNat
      else maxRank precision hashes register := by
  rw [maxRank, Finset.filter_insert]
  split_ifs with hregister
  · rw [Finset.sup_insert, sup_comm]
    rfl
  · rfl

namespace Holds

/-- There is only one sketch of a set of hashes. -/
lemma unique (hs : s.Holds precision hashes) (ht : t.Holds precision hashes) : s = t := by
  obtain ⟨p, registers⟩ := s
  obtain ⟨q, registers'⟩ := t
  obtain rfl : p = precision := hs.precision_eq
  obtain rfl : q = p := ht.precision_eq
  congr 1
  refine Array.ext (hs.size_eq.trans ht.size_eq.symm) fun register h h' => ?_
  exact UInt8.toNat_inj.1 ((hs.register_eq register h).trans (ht.register_eq register h').symm)

/-- One hash. -/
lemma insert (h : s.Holds precision hashes) (hpos : 0 < precision) (hle : precision ≤ 64)
    (hash : UInt64) : (s.insert hash).Holds precision (Insert.insert hash hashes) := by
  obtain ⟨p, registers⟩ := s
  obtain rfl : p = precision := h.precision_eq
  have hsize : (Sketch.insert ⟨p, registers⟩ hash).registers.size = 2 ^ p :=
    Array.size_modify.trans h.size_eq
  refine ⟨rfl, hsize, fun other _ => ?_, fun register hregister => ?_⟩
  · rw [hsize]
    exact Sketch.registerOf_lt hpos hle other
  · have hbefore := h.register_eq register (by rw [h.size_eq, ← hsize]; exact hregister)
    simp only [Sketch.insert, Array.getElem_modify, maxRank_insert]
    split_ifs
    · rw [UInt8.toNat_max, hbefore]
    · exact hbefore

/-- A list of hashes, one after the other. -/
lemma foldl_insert (h : s.Holds precision hashes) (hpos : 0 < precision) (hle : precision ≤ 64)
    (list : List UInt64) :
    (list.foldl Sketch.insert s).Holds precision (hashes ∪ list.toFinset) := by
  induction list generalizing s hashes with
  | nil => simpa using h
  | cons hash list ih =>
    have hrest := ih (h.insert hpos hle hash)
    rwa [Finset.insert_union, ← Finset.union_insert, ← List.toFinset_cons] at hrest

end Holds

/-- The empty sketch. -/
lemma holds_empty (precision : ℕ) : (empty precision).Holds precision ∅ := by
  refine ⟨rfl, ?_, by simp, fun register h => ?_⟩
  · simp [empty, Nat.shiftLeft_eq]
  · simp [empty, maxRank]

/-- The sketch of a list of hashes. -/
lemma holds_foldl_insert (hpos : 0 < precision) (hle : precision ≤ 64) (list : List UInt64) :
    (list.foldl insert (empty precision)).Holds precision list.toFinset := by
  have h := (holds_empty precision).foldl_insert hpos hle list
  rwa [Finset.empty_union] at h

end Columnar.Distinct.Sketch
