import Columnar.Proofs.Edit
/-!
# Reasoning about what is reported

`m.Reports s a t events` says that the operation `m`, begun in `s`, succeeds with `a`, leaves `t`
and reports `events`: all there is to say about an operation that succeeds. Like `Edit.Yields`,
which is silent about the report, it is closed under sequencing. `m.Declines s e` says that `m`
fails with `e` before it has changed or reported anything.
-/

namespace Columnar.Edit

variable {σ τ ι α β : Type}

/-- The operation, begun in `s`, succeeds with `a`, leaves `t` and reports `events`. -/
def Reports (m : Edit σ α) (s : σ) (a : α) (t : σ) (events : List Event) : Prop :=
  m s = ⟨.ok a, t, events.toArray⟩

/-- The operation, begun in `s`, fails with `e` and has neither changed nor reported anything. -/
def Declines (m : Edit σ α) (s : σ) (e : ColumnError) : Prop := m s = ⟨.error e, s, #[]⟩

namespace Reports

variable {m : Edit σ α} {s t u : σ} {a : α} {b : β} {events more : List Event}

lemma yields (h : m.Reports s a t events) : m.Yields s a t := ⟨_, h⟩

lemma state (h : m.Reports s a t events) : (m s).state = t := h.yields.state

lemma events_eq (h : m.Reports s a t events) : (m s).events = events.toArray := by
  rw [show m s = _ from h]

lemma bind {f : α → Edit σ β} (h : m.Reports s a t events) (hf : (f a).Reports t b u more) :
    (m >>= f).Reports s b u (events ++ more) := by
  rw [Reports, ← List.append_toArray]
  exact bind_eq h hf

lemma within {m : Edit τ α} (split : σ → τ × (τ → σ)) {part : τ}
    (h : m.Reports (split s).1 a part events) :
    (Edit.within split m).Reports s a ((split s).2 part) events := by
  show Edit.within split m s = _
  rw [Edit.within]
  simp only
  rw [show m (split s).1 = _ from h]

/-- A last part that replaces the state reports nothing. -/
lemma bind_updates {m : Edit σ Unit} (h : m.Reports s () t events) (f : σ → σ) :
    (m >>= fun _ => updates f).Reports s () (f t) events := by
  have hbind : (m >>= fun _ => updates f).Reports s () (f t) (events ++ []) := h.bind rfl
  rwa [List.append_nil] at hbind

end Reports

lemma reports_pure (a : α) (s : σ) : (pure a : Edit σ α).Reports s a s [] := rfl

lemma reports_reads (f : σ → α) (s : σ) : (reads f).Reports s (f s) s [] := rfl

lemma reports_updates (f : σ → σ) (s : σ) : (updates f).Reports s () (f s) [] := rfl

lemma reports_checks {f : σ → Except ColumnError α} {s : σ} {a : α} (h : f s = .ok a) :
    (checks f).Reports s a s [] := by
  rw [Reports, checks, h]

namespace Declines

variable {m : Edit σ α} {s : σ} {e : ColumnError}

lemma refuses (h : m.Declines s e) : m.Refuses s e := ⟨#[], h⟩

lemma bind (h : m.Declines s e) (f : α → Edit σ β) : (m >>= f).Declines s e := by
  show (m >>= f) s = _
  rw [bind_apply, show m s = _ from h]

lemma result_runOn {m : Edit σ Unit} (h : m.Declines s e) : (m.runOn s).result = .error e := by
  rw [runOn, show m s = _ from h]

end Declines

lemma declines_checks {f : σ → Except ColumnError α} {s : σ} {e : ColumnError}
    (h : f s = .error e) : (checks f).Declines s e := by
  rw [Declines, checks, h]

end Columnar.Edit
