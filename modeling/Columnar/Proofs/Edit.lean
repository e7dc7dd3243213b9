import Mathlib
import Columnar.Edit
/-!
# Reasoning about operations on a mutable value

`m.Yields s a t` says that the operation `m`, begun in `s`, succeeds with `a` and leaves `t`. It is
closed under sequencing, so that what a composite operation does is put together from what its
parts do, without a look at the monad. `m.Refuses s e` says that `m` fails with `e` and leaves `s`
as it was, and `m.Keeps P` that `m` leaves a state in which `P` holds, however it ends.
-/

namespace Columnar

variable {σ τ ι α β : Type}

namespace Edit

/-- The operation, begun in `s`, succeeds with `a` and leaves `t`. -/
def Yields (m : Edit σ α) (s : σ) (a : α) (t : σ) : Prop := ∃ events, m s = ⟨.ok a, t, events⟩

/-- The operation preserves a property of the state, whether it succeeds or fails. -/
def Keeps (m : Edit σ α) (P : σ → Prop) : Prop := ∀ s, P s → P (m s).state

/-- The operation, begun in `s`, fails with `e` and leaves `s` as it was. -/
def Refuses (m : Edit σ α) (s : σ) (e : ColumnError) : Prop :=
  ∃ events, m s = ⟨.error e, s, events⟩

/-- The operation, begun in `s`, leaves `s` as it was and fails, or succeeds in a state with a
property. -/
def Settles (m : Edit σ α) (P : σ → Prop) (s : σ) : Prop :=
  (∃ e, m.Refuses s e) ∨ ∃ a t, m.Yields s a t ∧ P t

/-! ### Sequencing -/

lemma bind_apply (m : Edit σ α) (f : α → Edit σ β) (s : σ) :
    (m >>= f) s = match m s with
      | ⟨.ok a, t, events⟩ => ⟨(f a t).result, (f a t).state, events ++ (f a t).events⟩
      | ⟨.error e, t, events⟩ => ⟨.error e, t, events⟩ := by
  show Edit.bind m f s = _
  unfold Edit.bind
  rcases m s with ⟨_ | a, t, events⟩
  · rfl
  · rfl

/-- An operation after one that succeeds begins where that one ended. -/
lemma bind_eq {m : Edit σ α} {f : α → Edit σ β} {s t u : σ} {a : α} {result : Except ColumnError β}
    {events more : Array Event} (h : m s = ⟨.ok a, t, events⟩) (hf : f a t = ⟨result, u, more⟩) :
    (m >>= f) s = ⟨result, u, events ++ more⟩ := by
  rw [bind_apply, h]
  simp only [hf]

lemma bind_of_error {m : Edit σ α} {f : α → Edit σ β} {s : σ} {e : ColumnError}
    (h : (m s).result = .error e) : (m >>= f) s = ⟨.error e, (m s).state, (m s).events⟩ := by
  rw [bind_apply]
  rcases hm : m s with ⟨_ | a, t, events⟩
  · rw [hm] at h
    cases h
    rfl
  · rw [hm] at h
    cases h

lemma bind_of_ok {m : Edit σ α} {f : α → Edit σ β} {s : σ} {a : α}
    (h : (m s).result = .ok a) :
    ((m >>= f) s).result = (f a (m s).state).result ∧
      ((m >>= f) s).state = (f a (m s).state).state := by
  rw [bind_apply]
  rcases hm : m s with ⟨_ | b, t, events⟩
  · rw [hm] at h
    cases h
  · rw [hm] at h
    cases h
    exact ⟨rfl, rfl⟩

/-- An operation ends in one of two ways. -/
lemma result_cases (m : Edit σ α) (s : σ) :
    (∃ a, m.Yields s a (m s).state) ∨ ∃ e, (m s).result = .error e := by
  rcases hm : m s with ⟨e | a, t, events⟩
  · exact Or.inr ⟨e, rfl⟩
  · exact Or.inl ⟨a, events, hm⟩

namespace Yields

variable {m : Edit σ α} {s t u : σ} {a : α} {b : β}

lemma result (h : m.Yields s a t) : (m s).result = .ok a := by
  obtain ⟨events, h⟩ := h
  rw [h]

lemma state (h : m.Yields s a t) : (m s).state = t := by
  obtain ⟨events, h⟩ := h
  rw [h]

lemma bind {f : α → Edit σ β} (h : m.Yields s a t) (hf : (f a).Yields t b u) :
    (m >>= f).Yields s b u := by
  obtain ⟨events, h⟩ := h
  obtain ⟨more, hf⟩ := hf
  exact ⟨events ++ more, bind_eq h hf⟩

lemma within {m : Edit τ α} (split : σ → τ × (τ → σ)) {part : τ}
    (h : m.Yields (split s).1 a part) : (Edit.within split m).Yields s a ((split s).2 part) := by
  obtain ⟨events, h⟩ := h
  refine ⟨events, ?_⟩
  rw [Edit.within]
  exact congrArg (fun o : Outcome τ α => Outcome.mk o.result ((split s).2 o.state) o.events) h

lemma result_runOn {m : Edit σ Unit} (h : m.Yields s () t) : (m.runOn s).result = .ok t := by
  obtain ⟨events, h⟩ := h
  rw [runOn, h]

end Yields

lemma yields_pure (a : α) (s : σ) : (pure a : Edit σ α).Yields s a s := ⟨#[], rfl⟩

lemma yields_reads (f : σ → α) (s : σ) : (reads f).Yields s (f s) s := ⟨#[], rfl⟩

lemma yields_updates (f : σ → σ) (s : σ) : (updates f).Yields s () (f s) := ⟨#[], rfl⟩

lemma yields_checks {f : σ → Except ColumnError α} {s : σ} {a : α} (h : f s = .ok a) :
    (checks f).Yields s a s := ⟨#[], by rw [checks, h]⟩

lemma yields_ofExcept {x : Except ColumnError α} {a : α} (h : x = .ok a) (s : σ) :
    (ofExcept x : Edit σ α).Yields s a s := ⟨#[], by rw [ofExcept, h]⟩

/-- A loop of steps that succeed: `P` relates the elements done to the state they lead to. -/
lemma yields_forEach {f : ι → Edit σ Unit} {P : List ι → σ → Prop} (xs : List ι)
    (hstep : ∀ done x rest s, xs = done ++ x :: rest → P done s →
      ∃ t, (f x).Yields s () t ∧ P (done ++ [x]) t)
    {s : σ} (hs : P [] s) : ∃ t, (forEach xs f).Yields s () t ∧ P xs t := by
  -- induction on what is left to do, for any part that has been done
  suffices h : ∀ (rest done : List ι) (s : σ), xs = done ++ rest → P done s →
      ∃ t, (forEach rest f).Yields s () t ∧ P xs t from h xs [] s rfl hs
  intro rest
  induction rest with
  | nil =>
    intro done s hxs hP
    rw [List.append_nil] at hxs
    exact ⟨s, yields_pure () s, hxs ▸ hP⟩
  | cons x rest ih =>
    intro done s hxs hP
    obtain ⟨t, hx, ht⟩ := hstep done x rest s hxs hP
    obtain ⟨u, hrest, hu⟩ := ih (done ++ [x]) t (by simpa using hxs) ht
    refine ⟨u, ?_, hu⟩
    rw [forEach_cons]
    exact hx.bind hrest

/-- A loop over the images of some elements is one over the elements. -/
lemma forEach_map (g : ι → α) (f : α → Edit σ Unit) (xs : List ι) :
    forEach (xs.map g) f = forEach xs fun x => f (g x) := by
  induction xs with
  | nil => rfl
  | cons x xs ih => rw [List.map_cons, forEach_cons, forEach_cons, ih]

/-! ### Invariants -/

section Keeps

variable {P : σ → Prop}

lemma keeps_of_yields {m : Edit σ α} (h : ∀ s, P s → ∃ a t, m.Yields s a t ∧ P t) :
    m.Keeps P := by
  intro s hs
  obtain ⟨a, t, ht, hP⟩ := h s hs
  rw [ht.state]
  exact hP

lemma Keeps.bind {m : Edit σ α} {f : α → Edit σ β} (hm : m.Keeps P) (hf : ∀ a, (f a).Keeps P) :
    (m >>= f).Keeps P := by
  intro s hs
  have h := hm s hs
  rcases result_cases m s with ⟨a, ha⟩ | ⟨e, he⟩
  · rw [(bind_of_ok ha.result).2]
    exact hf a _ h
  · rw [bind_of_error he]
    exact h

lemma keeps_ofExcept (x : Except ColumnError α) : (ofExcept x : Edit σ α).Keeps P := fun _ hs => hs

lemma keeps_forEach {f : ι → Edit σ Unit} (hf : ∀ x, (f x).Keeps P) (xs : List ι) :
    (forEach xs f).Keeps P := by
  induction xs with
  | nil => exact fun s hs => hs
  | cons x xs ih =>
    rw [forEach_cons]
    exact (hf x).bind fun _ => ih

end Keeps

/-! ### Refusals -/

section Refuses

variable {s t : σ} {a : α} {e : ColumnError}

lemma refuses_fail (e : ColumnError) (s : σ) : (fail e : Edit σ α).Refuses s e := ⟨#[], rfl⟩

lemma refuses_checks {f : σ → Except ColumnError α} (h : f s = .error e) :
    (checks f).Refuses s e := ⟨#[], by rw [checks, h]⟩

lemma refuses_ofExcept {x : Except ColumnError α} (h : x = .error e) (s : σ) :
    (ofExcept x : Edit σ α).Refuses s e := ⟨#[], by rw [ofExcept, h]⟩

namespace Refuses

variable {m : Edit σ α}

lemma result (h : m.Refuses s e) : (m s).result = .error e := by
  obtain ⟨events, h⟩ := h
  rw [h]

lemma state (h : m.Refuses s e) : (m s).state = s := by
  obtain ⟨events, h⟩ := h
  rw [h]

lemma bind (h : m.Refuses s e) (f : α → Edit σ β) : (m >>= f).Refuses s e := by
  obtain ⟨events, h⟩ := h
  refine ⟨events, (bind_apply m f s).trans ?_⟩
  rw [h]

lemma within {m : Edit τ α} {split : σ → τ × (τ → σ)} (h : m.Refuses (split s).1 e)
    (hsplit : (split s).2 (split s).1 = s) : (Edit.within split m).Refuses s e := by
  obtain ⟨events, h⟩ := h
  refine ⟨events, ?_⟩
  rw [Edit.within]
  refine (congrArg (fun o : Outcome τ α =>
    Outcome.mk o.result ((split s).2 o.state) o.events) h).trans ?_
  rw [hsplit]

end Refuses

lemma Refuses.settles {m : Edit σ α} (h : m.Refuses s e) (P : σ → Prop) : m.Settles P s :=
  Or.inl ⟨e, h⟩

lemma Yields.settles {m : Edit σ α} {P : σ → Prop} (h : m.Yields s a t) (ht : P t) :
    m.Settles P s := Or.inr ⟨a, t, h, ht⟩

/-- What is refused after a first part that changed nothing is refused. -/
lemma Yields.refuses {m : Edit σ α} {f : α → Edit σ β} (h : m.Yields s a s)
    (hf : (f a).Refuses s e) : (m >>= f).Refuses s e := by
  obtain ⟨events, h⟩ := h
  obtain ⟨more, hf⟩ := hf
  exact ⟨events ++ more, bind_eq h hf⟩

end Refuses

/-! ### Operations that succeed or change nothing -/

section Settles

variable {P : σ → Prop} {s : σ}

lemma settles_checks_bind {f : σ → Except ColumnError α} {g : α → Edit σ β}
    (hg : ∀ a, f s = .ok a → (g a).Settles P s) : (checks f >>= g).Settles P s := by
  rcases hf : f s with e | a
  · exact ((refuses_checks hf).bind g).settles P
  · rcases hg a hf with ⟨e, he⟩ | ⟨b, t, ht, hP⟩
    · exact ((yields_checks hf).refuses he).settles P
    · exact ((yields_checks hf).bind ht).settles hP

lemma settles_ofExcept_bind {x : Except ColumnError α} {g : α → Edit σ β}
    (hg : ∀ a, x = .ok a → (g a).Settles P s) : (ofExcept x >>= g : Edit σ β).Settles P s :=
  settles_checks_bind (f := fun _ => x) hg

lemma Settles.within {Q : τ → Prop} {m : Edit τ α} {split : σ → τ × (τ → σ)}
    (h : m.Settles Q (split s).1) (hsplit : (split s).2 (split s).1 = s)
    (hP : ∀ part, Q part → P ((split s).2 part)) : (Edit.within split m).Settles P s := by
  rcases h with ⟨e, he⟩ | ⟨a, part, hpart, hQ⟩
  · exact (he.within hsplit).settles P
  · exact (hpart.within split).settles (hP part hQ)

/-- What an operation that settles leaves behind: what it was given, or a state in which `P`
holds. -/
lemma Settles.state {m : Edit σ α} (h : m.Settles P s) (hs : P s) : P (m s).state := by
  rcases h with ⟨e, he⟩ | ⟨a, t, ht, hP⟩
  · rwa [he.state]
  · rwa [ht.state]

/-- What an operation that settles makes of a value of one's own. -/
lemma Settles.of_runOn {m : Edit σ Unit} {t : σ} (h : m.Settles P s)
    (ht : (m.runOn s).result = .ok t) : P t := by
  rcases h with ⟨e, events, he⟩ | ⟨⟨⟩, u, hu, hP⟩
  · rw [runOn, he] at ht
    cases ht
  · rw [hu.result_runOn, Except.ok.injEq] at ht
    exact ht ▸ hP

/-- An operation that settles has changed nothing when it fails. -/
lemma Settles.state_eq_of_error {m : Edit σ α} {e : ColumnError} (h : m.Settles P s)
    (he : (m s).result = .error e) : (m s).state = s := by
  rcases h with ⟨e', hr⟩ | ⟨a, t, ht, -⟩
  · exact hr.state
  · rw [ht.result] at he
    cases he

end Settles

end Edit

namespace Traced

/-- What a sequence returns comes from what its first part returns. -/
lemma result_bind_eq_ok {x : Traced α} {f : α → Traced β} {b : β} :
    (x >>= f).result = .ok b ↔ ∃ a, x.result = .ok a ∧ (f a).result = .ok b := by
  rw [result_bind]
  rcases x.result with e | a
  · simp [bind, Except.bind]
  · simp [bind, Except.bind]

end Traced

end Columnar
