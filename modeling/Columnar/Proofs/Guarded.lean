import Columnar.Proofs.Edit
/-!
# Guarded computations

A total definition has an answer everywhere: an element past the end of an array is a default, and
the difference to a larger number is zero. Whether an operation ever gets there is not seen in what
it returns. A guarded computation has no outcome at all, neither a value nor an error, as soon as it
leaves the bounds of what it works on.

An operation is therefore written a second time, with every access and every difference guarded.
`x.Returns y` says that the guarded form `x` stays within bounds and ends as `y`; with the operation
itself for `y`, the defaults of the total definition are never met.
-/

namespace Columnar

variable {ι σ α β : Type}

/-- A computation that may be refused, and that has no outcome if it leaves its bounds. -/
abbrev Guarded (α : Type) : Type := ExceptT ColumnError Option α

/-- The difference of two numbers, unless it is below zero. -/
def sub? (a b : ℕ) : Option ℕ := if b ≤ a then some (a - b) else none

lemma sub?_eq_some {a b : ℕ} (h : b ≤ a) : sub? a b = some (a - b) := if_pos h

namespace Guarded

/-- The computation stays within its bounds and ends like `y`. -/
def Returns (x : Guarded α) (y : Except ColumnError α) : Prop := x.run = some y

lemma returns_pure (a : α) : Returns (pure a) (.ok a) := rfl

lemma returns_throw (e : ColumnError) : Returns (throw e : Guarded α) (.error e) := rfl

lemma returns_ite_throw (p : Prop) [Decidable p] (e : ColumnError) :
    Returns (if p then throw e else pure ()) (if p then .error e else .ok ()) := by
  split_ifs
  · exact returns_throw e
  · exact returns_pure ()

lemma returns_except (y : Except ColumnError α) : Returns (liftM y) y := rfl

lemma returns_some {x : Option α} {a : α} (h : x = some a) : Returns (liftM x) (.ok a) := by
  rw [h]
  rfl

namespace Returns

variable {x : Guarded α} {y : Except ColumnError α}

lemma bind {f : α → Guarded β} {g : α → Except ColumnError β} (h : x.Returns y)
    (hf : ∀ a, y = .ok a → (f a).Returns (g a)) : Returns (x >>= f) (y >>= g) := by
  have hrun : (x >>= f).run = x.run >>= ExceptT.bindCont f := rfl
  rw [Returns, hrun, h]
  rcases y with e | a
  · rfl
  · exact hf a rfl

/-- A part that has a value is passed over. -/
lemma ok_bind {f : α → Guarded β} {z : Except ColumnError β} {a : α} (h : x.Returns (.ok a))
    (hf : (f a).Returns z) : Returns (x >>= f) z :=
  h.bind (g := fun _ => z) fun b hb => by
    cases hb
    exact hf

end Returns

end Guarded

/-! ### Options and operations -/

/-- A loop of accesses that are all within bounds is a map. -/
lemma mapM_eq_some {f : ι → Option α} {g : ι → α} {l : List ι} (h : ∀ i ∈ l, f i = some (g i)) :
    l.mapM f = some (l.map g) := by
  induction l with
  | nil => rfl
  | cons i l ih =>
    rw [List.mapM_cons, h i List.mem_cons_self, ih fun j hj => h j (List.mem_cons_of_mem i hj)]
    rfl

/-- An operation on a state of one's own gives the state it leaves behind, if it succeeds. -/
lemma Edit.result_runOn (m : Edit σ Unit) (s : σ) :
    (m.runOn s).result = (m s).result.map fun _ => (m s).state := by
  rw [runOn]
  rcases m s with ⟨_ | _, t, events⟩ <;> rfl

lemma Edit.result_runOn_checks_bind (f : σ → Except ColumnError α) (m : α → Edit σ Unit) (s : σ) :
    ((checks f >>= m).runOn s).result = f s >>= fun a => ((m a).runOn s).result := by
  rw [result_runOn]
  rcases hf : f s with e | a
  · rw [bind_of_error ((refuses_checks hf).result)]
    rfl
  · obtain ⟨hresult, hstate⟩ := bind_of_ok (f := m) (yields_checks hf).result
    rw [hresult, hstate, (yields_checks hf).state, ← result_runOn]
    rfl

end Columnar
