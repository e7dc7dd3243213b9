import Columnar.Proofs.Container.Binary
import Columnar.Proofs.Container.Rows
/-!
# Operators as operators on pairs of rows

A binary operator works on a list of pairs of rows, whether the second operand is a container or a
scalar that is put beside every row. A pair with a null gives a null; a zero divisor in any pair is
found before an overflow in any. The operators on containers refine this one operator on pairs, so
that neither what is stored beneath nulls nor the cut into chunks shows in their results.
-/

namespace Columnar

variable {k : Kind} {ι : Type}

/-! ### Running a failing function over a list -/

lemma mapM_eq_ok {α β ε : Type} {f : α → Except ε β} {g : α → β} {l : List α}
    (h : ∀ x ∈ l, f x = .ok (g x)) : l.mapM f = .ok (l.map g) := by
  induction l with
  | nil => rfl
  | cons x l ih =>
    rw [List.mapM_cons, h x List.mem_cons_self, ih fun y hy => h y (List.mem_cons_of_mem x hy)]
    rfl

/-- It only matters what the function gives for the elements. -/
lemma mapM_congr_map {α β γ ε : Type} {f : α → Except ε γ} {g : β → Except ε γ} {l : List α}
    {l' : List β} (h : l.map f = l'.map g) : l.mapM f = l'.mapM g := by
  have hid := congrArg (List.mapM id) h
  rwa [List.mapM_map, List.mapM_map] at hid

lemma mapM_eq_ok_iff {α β : Type} {f : α → Except ColumnError β} {l : List α} {bs : List β} :
    l.mapM f = .ok bs ↔ List.Forall₂ (fun a b => f a = .ok b) l bs := by
  induction l generalizing bs with
  | nil => simp [pure, Except.pure, eq_comm]
  | cons a l ih =>
    simp only [List.mapM_cons, bind_eq_ok_iff, ih, List.forall₂_cons_left_iff, pure, Except.pure,
      Except.ok.injEq]
    constructor
    · rintro ⟨b, hb, bs, hbs, rfl⟩
      exact ⟨b, bs, hb, hbs, rfl⟩
    · rintro ⟨b, bs, hb, hbs, rfl⟩
      exact ⟨b, hb, bs, hbs, rfl⟩

/-- If there is one error only, it does not matter where it occurs first. -/
lemma mapM_eq_error {α β ε : Type} {f : α → Except ε β} {e : ε} {l : List α}
    (hex : ∃ x ∈ l, f x = .error e) (hall : ∀ x ∈ l, ∀ e', f x = .error e' → e' = e) :
    l.mapM f = .error e := by
  induction l with
  | nil =>
    obtain ⟨x, hx, -⟩ := hex
    exact absurd hx List.not_mem_nil
  | cons x l ih =>
    rw [List.mapM_cons]
    rcases hfx : f x with e' | y
    · rw [hall x List.mem_cons_self e' hfx]
      rfl
    · have hrest : ∃ x ∈ l, f x = .error e := by
        obtain ⟨z, hz, he⟩ := hex
        rcases List.mem_cons.1 hz with rfl | hz
        · rw [hfx] at he
          cases he
        · exact ⟨z, hz, he⟩
      rw [ih hrest fun z hz => hall z (List.mem_cons_of_mem x hz)]
      rfl

lemma exists_of_mapM_eq_error {α β ε : Type} {f : α → Except ε β} {e : ε} {l : List α}
    (h : l.mapM f = .error e) : ∃ x ∈ l, f x = .error e := by
  induction l with
  | nil => cases h
  | cons x l ih =>
    rw [List.mapM_cons] at h
    rcases hfx : f x with e' | y
    · rw [hfx] at h
      cases h
      exact ⟨x, List.mem_cons_self, hfx⟩
    · rcases hl : l.mapM f with e' | ys
      · rw [hfx, hl] at h
        cases h
        obtain ⟨z, hz, he⟩ := ih hl
        exact ⟨z, List.mem_cons_of_mem x hz, he⟩
      · rw [hfx, hl] at h
        cases h

namespace BinaryOp

/-! ### The operator on rows -/

/-- The operator on two rows: a null if either is one. -/
def onCells (op : BinaryOp) : Cell k → Cell k → Except ColumnError (Cell k)
  | some a, some b => (op.onValues a b).map some
  | _, _ => .ok none

/-- Whether the operator fails with an error on a pair of rows. -/
def failsOn (op : BinaryOp) (e : ColumnError) (p : Cell k × Cell k) : Bool :=
  match op.onCells p.1 p.2 with
  | .error e' => e' == e
  | .ok _ => false

/-- The operator on a list of pairs of rows. A zero divisor in any pair is found first. -/
def onPairs (op : BinaryOp) (pairs : List (Cell k × Cell k)) : Except ColumnError (List (Cell k)) :=
  if pairs.any (op.failsOn (.divideByZero k)) then .error (.divideByZero k)
  else pairs.mapM fun p => op.onCells p.1 p.2

variable {op : BinaryOp} {e : ColumnError}

lemma failsOn_iff {p : Cell k × Cell k} : op.failsOn e p ↔ op.onCells p.1 p.2 = .error e := by
  rw [failsOn]
  rcases op.onCells p.1 p.2 with e' | x <;> simp

lemma onCells_eq_error_iff {x y : Cell k} : op.onCells x y = .error e ↔
    ∃ a b, x = some a ∧ y = some b ∧ op.onValues a b = .error e := by
  rcases x with _ | a <;> rcases y with _ | b
  case some.some => rcases h : op.onValues a b with e' | c <;> simp [onCells, h, Except.map]
  all_goals simp [onCells]

/-- A legal operator refuses two values for a zero divisor or an overflow. -/
lemma onValues_eq_error (hallows : k.support.allows (.binary op)) {a b : k.Value}
    (h : op.onValues a b = .error e) : e = .divideByZero k ∨ e = .overflow k op := by
  have helim : ∀ result : Option k.Value,
      result.elim (.error (.overflow k op)) .ok = (.error e : Except ColumnError k.Value) →
        e = .overflow k op := by
    rintro (_ | c) ⟨⟩
    rfl
  rcases Container.carries_of_allows hallows with ⟨f, hop, -, -⟩ | ⟨f, hop, -, -⟩ |
    ⟨f, hop, -, -⟩ | ⟨f, hop, -, -⟩
  case total =>
    rw [hop] at h
    cases h
  case division =>
    rw [hop] at h
    split_ifs at h
    exact Or.inl (Except.error.inj h).symm
  case checked =>
    rw [hop] at h
    exact Or.inr (helim _ h)
  case checkedDivision =>
    rw [hop] at h
    split_ifs at h
    · exact Or.inl (Except.error.inj h).symm
    · exact Or.inr (helim _ h)

/-! ### How the operator on pairs ends

The pairs are given as a function of the elements of another list, which may be slots. -/

section

variable {l : List ι} {f : ι → Cell k × Cell k}

lemma any_failsOn_iff : (l.map f).any (op.failsOn e) ↔
    ∃ x ∈ l, op.onCells (f x).1 (f x).2 = .error e := by
  simp [List.any_eq_true, ← failsOn_iff]

lemma onPairs_eq_divideByZero (h : ∃ x ∈ l, op.onCells (f x).1 (f x).2 = .error (.divideByZero k)) :
    op.onPairs (l.map f) = .error (.divideByZero k) := by
  rw [onPairs, if_pos (any_failsOn_iff.2 h)]

lemma onPairs_eq_divideByZero_iff {pairs : List (Cell k × Cell k)} :
    op.onPairs pairs = .error (.divideByZero k) ↔
      ∃ p ∈ pairs, op.onCells p.1 p.2 = .error (.divideByZero k) := by
  constructor
  · intro h
    rw [onPairs] at h
    split_ifs at h with hany
    · obtain ⟨p, hp, he⟩ := List.any_eq_true.1 hany
      exact ⟨p, hp, failsOn_iff.1 he⟩
    · exact exists_of_mapM_eq_error h
  · intro h
    simpa using onPairs_eq_divideByZero (f := id) h

lemma onPairs_eq_overflow (hallows : k.support.allows (.binary op))
    (hzero : ¬ ∃ x ∈ l, op.onCells (f x).1 (f x).2 = .error (.divideByZero k))
    (h : ∃ x ∈ l, op.onCells (f x).1 (f x).2 = .error (.overflow k op)) :
    op.onPairs (l.map f) = .error (.overflow k op) := by
  rw [onPairs, if_neg (mt any_failsOn_iff.1 hzero)]
  refine mapM_eq_error ?_ ?_
  · obtain ⟨x, hx, he⟩ := h
    exact ⟨f x, List.mem_map_of_mem hx, he⟩
  · intro p hp e he
    obtain ⟨x, hx, rfl⟩ := List.mem_map.1 hp
    obtain ⟨a, b, -, -, hab⟩ := onCells_eq_error_iff.1 he
    rcases onValues_eq_error hallows hab with rfl | rfl
    · exact absurd ⟨x, hx, he⟩ hzero
    · rfl

/-- A legal operator refuses pairs of rows for a zero divisor or an overflow. -/
lemma onPairs_eq_error (hallows : k.support.allows (.binary op)) {pairs : List (Cell k × Cell k)}
    (h : op.onPairs pairs = .error e) : e = .divideByZero k ∨ e = .overflow k op := by
  rw [onPairs] at h
  split_ifs at h
  · exact Or.inl (Except.error.inj h).symm
  · obtain ⟨p, -, he⟩ := exists_of_mapM_eq_error h
    obtain ⟨a, b, -, -, hab⟩ := onCells_eq_error_iff.1 he
    exact onValues_eq_error hallows hab

lemma onPairs_eq_ok {g : ι → Cell k} (h : ∀ x ∈ l, op.onCells (f x).1 (f x).2 = .ok (g x)) :
    op.onPairs (l.map f) = .ok (l.map g) := by
  have hzero : ¬ ∃ x ∈ l, op.onCells (f x).1 (f x).2 = .error (.divideByZero k) := by
    rintro ⟨x, hx, he⟩
    rw [h x hx] at he
    cases he
  rw [onPairs, if_neg (mt any_failsOn_iff.1 hzero), List.mapM_map]
  exact mapM_eq_ok h

end

end BinaryOp

namespace Container

variable {o o' : Options} {s t : List (Slot k)} {xs ys rows : List (Cell k)}
  {left right c : Container k} {op : BinaryOp}

/-! ### Two containers -/

lemma failsWith_iff_exists_pair {e : ColumnError} : FailsWith op e s t ↔
    ∃ p ∈ s.zip t, op.onCells p.1.cell p.2.cell = .error e := by
  simp only [FailsWith, BinaryOp.onCells_eq_error_iff, Slot.cell_eq_some_iff]
  constructor
  · rintro ⟨p, hp, hx, hy, he⟩
    exact ⟨p, hp, p.1.1, p.2.1, Prod.ext rfl hx, Prod.ext rfl hy, he⟩
  · rintro ⟨p, hp, a, b, hx, hy, he⟩
    refine ⟨p, hp, ?_, ?_, ?_⟩
    · rw [hx]
    · rw [hy]
    · rw [hx, hy, he]

lemma onCells_of_agrees {g : Slot k → Slot k → Slot k} (h : Agrees op g s t)
    {p : Slot k × Slot k} (hp : p ∈ s.zip t) :
    op.onCells p.1.cell p.2.cell = .ok (g p.1 p.2).cell := by
  obtain ⟨hflag, hvalue⟩ := h p hp
  rcases hx : p.1.2 with _ | _
  · -- a null on the left
    rw [hx, Bool.false_and] at hflag
    rw [Slot.cell_of_null hx, Slot.cell_of_null hflag]
    rfl
  rw [hx, Bool.true_and] at hflag
  rw [Slot.cell_of_valid hx]
  rcases hy : p.2.2 with _ | _
  · -- a null on the right
    rw [Slot.cell_of_null hy, Slot.cell_of_null (hflag.trans hy)]
    rfl
  · rw [Slot.cell_of_valid hy, Slot.cell_of_valid (hflag.trans hy), BinaryOp.onCells, hvalue hx hy]
    rfl

/-- An operator on two containers: legality first, then the layouts, then the pairs of rows. -/
theorem refines_binary (hl : left.Holds o xs) (hr : right.Holds o' ys) (op : BinaryOp) :
    (binary op right).Refines left (Holds o) (do
      k.arithmetic.support.check k (.binary op)
      checkLayout left right
      op.onPairs (xs.zip ys)) := by
  obtain ⟨s, hl, rfl⟩ := hl
  obtain ⟨t, hr, rfl⟩ := hr
  rw [Support.check, k.support_arithmetic]
  split_ifs with hallows
  · show Edit.Refines _ left (Holds o) (checkLayout left right >>= fun _ => op.onPairs _)
    rcases hlayout : checkLayout left right with e | ⟨⟩
    · exact refuses_binary_of_layout hallows hlayout
    · show Edit.Refines _ left (Holds o) (op.onPairs _)
      have hspec := binarySpec hl hr (hl.sizes_eq_of_checkLayout hr hlayout) hallows
      rw [List.zip_map]
      by_cases hzero : FailsWith op (.divideByZero k) s t
      · rw [BinaryOp.onPairs_eq_divideByZero (failsWith_iff_exists_pair.1 hzero)]
        exact hspec.divideByZero hzero
      · by_cases hover : FailsWith op (.overflow k op) s t
        · rw [BinaryOp.onPairs_eq_overflow hallows (mt failsWith_iff_exists_pair.2 hzero)
            (failsWith_iff_exists_pair.1 hover)]
          exact hspec.overflow hzero hover
        · obtain ⟨d, g, hd, hstores, hagrees⟩ := hspec.succeeds hzero hover
          rw [BinaryOp.onPairs_eq_ok (g := fun p => (g p.1 p.2).cell)
            fun p hp => onCells_of_agrees hagrees hp]
          refine refines_of_yields hd hstores ?_
          rw [← List.map_uncurry_zip_eq_zipWith, List.map_map]
          rfl
  · exact refuses_binary_of_not_allows hallows left right

/-! ### Failures change nothing -/

lemma settles_of_refines {m : Edit (Container k) Unit} {spec : Except ColumnError (List (Cell k))}
    (h : m.Refines c (Holds o) spec) : m.Settles (fun d => ∃ u, d.Stores o u) c := by
  rcases spec with e | rows
  · exact Edit.Refuses.settles h _
  · obtain ⟨d, hd, u, hu, -⟩ := h
    exact hd.settles ⟨u, hu⟩

/-- A binary operator changes nothing when it fails, and otherwise keeps the container sound. -/
theorem settles_binary (hl : left.Stores o s) (hr : right.Stores o' t) (op : BinaryOp) :
    (binary op right).Settles (fun d => ∃ u, d.Stores o u) left :=
  settles_of_refines (refines_binary hl.holds hr.holds op)

end Container

end Columnar
