import Columnar.Proofs.Edit
/-!
# Operations that refine a specification

What an operation does is often said of something simpler than its state, such as the rows of a
container. A specification then is an error, or the value that the state stands for afterwards, and
a relation `R` says what states stand for which values. `m.Refines s R spec` says that `m`, begun in
`s`, is refused with the error of the specification, or succeeds and leaves a state that stands for
its value; `x.Refines R spec` says the like of a computation.

Two runs that refine one specification end alike, which is how operations on different states that
stand for the same value are compared.
-/

namespace Columnar

variable {σ τ α β : Type}

/-- Two results are the same error, or values in a relation. -/
inductive Agree (S : α → β → Prop) : Except ColumnError α → Except ColumnError β → Prop
  | error (e : ColumnError) : Agree S (.error e) (.error e)
  | ok {a : α} {b : β} : S a b → Agree S (.ok a) (.ok b)

/-- What a sequence gives comes from what its first part gives. -/
lemma bind_eq_ok_iff {x : Except ColumnError α} {f : α → Except ColumnError β} {b : β} :
    x >>= f = .ok b ↔ ∃ a, x = .ok a ∧ f a = .ok b := by
  rcases x with e | a
  · simp [bind, Except.bind]
  · simp [bind, Except.bind]

namespace Edit

/-- The operation, begun in `s`, is refused with the error of `spec`, or succeeds and leaves a state
that stands for the value of `spec`. -/
def Refines (m : Edit σ Unit) (s : σ) (R : σ → α → Prop) (spec : Except ColumnError α) : Prop :=
  match spec with
  | .ok a => ∃ t, m.Yields s () t ∧ R t a
  | .error e => m.Refuses s e

end Edit

namespace Traced

/-- The computation fails with the error of `spec`, or gives something that stands for the value of
`spec`. -/
def Refines (x : Traced σ) (R : σ → α → Prop) (spec : Except ColumnError α) : Prop :=
  match spec with
  | .ok a => ∃ t, x.result = .ok t ∧ R t a
  | .error e => x.result = .error e

end Traced

/-! ### Composition -/

namespace Edit.Refines

variable {s : σ} {R : σ → α → Prop}

lemma checks_bind {f : σ → Except ColumnError β} {m : β → Edit σ Unit}
    {spec : β → Except ColumnError α} (h : ∀ b, f s = .ok b → (m b).Refines s R (spec b)) :
    (checks f >>= m).Refines s R (f s >>= spec) := by
  rcases hf : f s with e | b
  · exact (refuses_checks hf).bind m
  · have hb := h b hf
    show Edit.Refines _ s R (spec b)
    rcases hspec : spec b with e | a
    · rw [hspec] at hb
      exact (yields_checks hf).refuses hb
    · rw [hspec] at hb
      obtain ⟨t, ht, hR⟩ := hb
      exact ⟨t, (yields_checks hf).bind ht, hR⟩

lemma ofExcept_bind {x : Except ColumnError β} {m : β → Edit σ Unit}
    {spec : β → Except ColumnError α} (h : ∀ b, x = .ok b → (m b).Refines s R (spec b)) :
    (ofExcept x >>= m : Edit σ Unit).Refines s R (x >>= spec) :=
  checks_bind (f := fun _ => x) h

/-- What is done to a part of the state is seen in the whole. -/
lemma within {Q : τ → α → Prop} {m : Edit τ Unit} {split : σ → τ × (τ → σ)}
    {spec : Except ColumnError α} (h : m.Refines (split s).1 Q spec)
    (hsplit : (split s).2 (split s).1 = s) (hR : ∀ part a, Q part a → R ((split s).2 part) a) :
    (Edit.within split m).Refines s R spec := by
  rcases spec with e | a
  · exact Refuses.within h hsplit
  · obtain ⟨part, hpart, hQ⟩ := h
    exact ⟨_, hpart.within split, hR part a hQ⟩

lemma runOn {m : Edit σ Unit} {spec : Except ColumnError α} (h : m.Refines s R spec) :
    (m.runOn s).Refines R spec := by
  rcases spec with e | a
  · obtain ⟨events, h⟩ := h
    show (m.runOn s).result = _
    rw [Edit.runOn, h]
  · obtain ⟨t, ht, hR⟩ := h
    exact ⟨t, ht.result_runOn, hR⟩

/-- The operation is refused for the reasons of the specification only. -/
lemma eq_error_of_result {m : Edit σ Unit} {spec : Except ColumnError α} {e : ColumnError}
    (h : m.Refines s R spec) (he : (m s).result = .error e) : spec = .error e := by
  rcases spec with e' | a
  · rw [Refuses.result h] at he
    cases he
    rfl
  · obtain ⟨t, ht, -⟩ := h
    rw [ht.result] at he
    cases he

/-- Two operations that refine one specification end alike, and keep states alike. -/
lemma alike {s' : τ} {R' : τ → α → Prop} {S : σ → τ → Prop} {m : Edit σ Unit} {m' : Edit τ Unit}
    {spec : Except ColumnError α} (h : m.Refines s R spec) (h' : m'.Refines s' R' spec)
    (hs : S s s') (hS : ∀ t t' a, R t a → R' t' a → S t t') :
    (m s).result = (m' s').result ∧ S (m s).state (m' s').state := by
  rcases spec with e | a
  · rw [Refuses.result h, Refuses.result h', Refuses.state h, Refuses.state h']
    exact ⟨rfl, hs⟩
  · obtain ⟨t, ht, hR⟩ := h
    obtain ⟨t', ht', hR'⟩ := h'
    rw [ht.result, ht'.result, ht.state, ht'.state]
    exact ⟨rfl, hS t t' a hR hR'⟩

end Edit.Refines

namespace Traced.Refines

variable {R : σ → α → Prop} {x : Traced σ} {spec : Except ColumnError α}

/-- What is reported does not matter. -/
lemma of_result_eq {y : Traced σ} (h : x.Refines R spec) (hy : y.result = x.result) :
    y.Refines R spec := by
  rcases spec with e | a
  · exact hy.trans h
  · obtain ⟨t, ht, hR⟩ := h
    exact ⟨t, hy.trans ht, hR⟩

lemma ofExcept_bind {y : Except ColumnError β} {x : β → Traced σ}
    {spec : β → Except ColumnError α} (h : ∀ b, y = .ok b → (x b).Refines R (spec b)) :
    (ofExcept y >>= x).Refines R (y >>= spec) := by
  have hresult : (ofExcept y >>= x).result = y >>= fun b => (x b).result := result_bind _ _
  rcases y with e | b
  · exact hresult
  · exact (h b rfl).of_result_eq hresult

lemma bind {S : τ → β → Prop} {f : σ → Traced τ} {g : α → Except ColumnError β}
    (h : x.Refines R spec) (hf : ∀ t a, R t a → (f t).Refines S (g a)) :
    (x >>= f).Refines S (spec >>= g) := by
  have hresult : (x >>= f).result = x.result >>= fun t => (f t).result := result_bind _ _
  rcases spec with e | a
  · exact hresult.trans (by rw [show x.result = .error e from h]; rfl)
  · obtain ⟨t, ht, hR⟩ := h
    exact (hf t a hR).of_result_eq (hresult.trans (by rw [ht]; rfl))

/-- The result is transformed by a function that is right for the relation. -/
lemma map {S : τ → α → Prop} {f : σ → τ} (h : x.Refines R spec)
    (hf : ∀ t a, R t a → S (f t) a) : Traced.Refines (do return f (← x)) S spec := by
  have hspec : spec = spec >>= .ok := by rcases spec with e | a <;> rfl
  rw [hspec]
  exact h.bind fun t a hR => ⟨f t, rfl, hf t a hR⟩

/-- The computation fails for the reasons of the specification only. -/
lemma eq_error_of_result {e : ColumnError} (h : x.Refines R spec) (he : x.result = .error e) :
    spec = .error e := by
  rcases spec with e' | a
  · cases (show x.result = .error e' from h).symm.trans he
    rfl
  · obtain ⟨t, ht, -⟩ := h
    rw [ht] at he
    cases he

/-- What a computation gives stands for the value of the specification. -/
lemma exists_of_result_eq_ok {t : σ} (h : x.Refines R spec) (ht : x.result = .ok t) :
    ∃ a, spec = .ok a ∧ R t a := by
  rcases spec with e | a
  · have he : x.result = .error e := h
    rw [ht] at he
    cases he
  · obtain ⟨u, hu, hR⟩ := h
    rw [ht, Except.ok.injEq] at hu
    exact ⟨a, rfl, hu ▸ hR⟩

/-- What is read off a result is the value of the specification. -/
lemma result_map {f : σ → α} (h : x.Refines R spec) (hf : ∀ t a, R t a → f t = a) :
    x.result.map f = spec := by
  rcases spec with e | a
  · rw [show x.result = .error e from h]
    rfl
  · obtain ⟨t, ht, hR⟩ := h
    rw [ht]
    exact congrArg Except.ok (hf t a hR)

/-- Computations that all succeed can be run one after the other. -/
lemma exists_mapM {ι : Type} {f : ι → Traced σ} {g : ι → α} {l : List ι}
    (h : ∀ i ∈ l, (f i).Refines R (.ok (g i))) :
    ∃ ts, l.mapM (fun i => (f i).result) = .ok ts ∧ List.Forall₂ R ts (l.map g) := by
  induction l with
  | nil => exact ⟨[], rfl, .nil⟩
  | cons i l ih =>
    obtain ⟨t, ht, hR⟩ := h i List.mem_cons_self
    obtain ⟨ts, hts, hall⟩ := ih fun j hj => h j (List.mem_cons_of_mem i hj)
    refine ⟨t :: ts, ?_, .cons hR hall⟩
    rw [List.mapM_cons, ht, hts]
    rfl

/-- Two computations that refine one specification agree. -/
lemma agree {y : Traced τ} {R' : τ → α → Prop} {S : σ → τ → Prop} (h : x.Refines R spec)
    (h' : y.Refines R' spec) (hS : ∀ t t' a, R t a → R' t' a → S t t') :
    Agree S x.result y.result := by
  rcases spec with e | a
  · rw [show x.result = .error e from h, show y.result = .error e from h']
    exact .error e
  · obtain ⟨t, ht, hR⟩ := h
    obtain ⟨t', ht', hR'⟩ := h'
    rw [ht, ht']
    exact .ok (hS t t' a hR hR')

end Traced.Refines

end Columnar
