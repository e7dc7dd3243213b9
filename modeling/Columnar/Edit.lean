import Columnar.Error
import Columnar.Event
/-!
# Computations that fail and report

Two shapes of computation run through the library.

* `Traced α` produces a value of type `α` or an error, and reports events on the way. What was
  reported before a failure stays reported.
* `Edit σ α` works on a mutable value of type `σ`. A failure does not undo what has already been
  done to the value: the state it leaves behind is part of the outcome. That an operation which
  fails leaves its value untouched is therefore a statement about the operation, not about the
  monad.

`Edit.forEach` is the one loop over elements; it runs in constant stack space.
-/

namespace Columnar

variable {σ τ ι α β : Type}

/-- A result, and the events reported while it was computed. -/
structure Traced (α : Type) where
  /-- The value, or why there is none. -/
  result : Except ColumnError α
  /-- What was reported, in order. -/
  events : Array Event

namespace Traced

/-- A value computed without any report. -/
protected def pure (a : α) : Traced α := ⟨.ok a, #[]⟩

/-- Run `f` on the value of `x`, after the events of `x`. -/
protected def bind (x : Traced α) (f : α → Traced β) : Traced β :=
  match x with
  | ⟨.ok a, events⟩ => let y := f a; ⟨y.result, events ++ y.events⟩
  | ⟨.error e, events⟩ => ⟨.error e, events⟩

/-- In a sequence, the events of the parts follow one another. -/
instance : Monad Traced where
  pure := Traced.pure
  bind := Traced.bind

/-- A failure that is handled keeps the events before it. -/
instance : MonadExceptOf ColumnError Traced where
  throw e := ⟨.error e, #[]⟩
  tryCatch x handle :=
    match x with
    | ⟨.ok a, events⟩ => ⟨.ok a, events⟩
    | ⟨.error e, events⟩ => let y := handle e; ⟨y.result, events ++ y.events⟩

/-- A computation that reports nothing. -/
def ofExcept (x : Except ColumnError α) : Traced α := ⟨x, #[]⟩

/-- A result stands for the computation that gives it without any report. -/
instance : MonadLift (Except ColumnError) Traced := ⟨ofExcept⟩

/-- Report an event. -/
def report (e : Event) : Traced Unit := ⟨.ok (), #[e]⟩

@[simp] theorem result_pure (a : α) : (pure a : Traced α).result = .ok a := rfl

@[simp] theorem result_ofExcept (x : Except ColumnError α) : (ofExcept x).result = x := rfl

/-- The result of a sequence depends on the results of its parts only. -/
@[simp] theorem result_bind (x : Traced α) (f : α → Traced β) :
    (x >>= f).result = x.result >>= fun a => (f a).result := by
  rcases x with ⟨_ | _, _⟩ <;> rfl

end Traced

/-- How an operation on a mutable value ended: its result, the value it left behind and the events
it reported. -/
structure Outcome (σ α : Type) where
  /-- The value returned, or why there is none. -/
  result : Except ColumnError α
  /-- The mutable value afterwards, also after a failure. -/
  state : σ
  /-- What was reported, in order. -/
  events : Array Event

/-- An operation on a mutable value of type `σ` that returns an `α`. -/
def Edit (σ α : Type) : Type := σ → Outcome σ α

namespace Edit

/-- Return a value and touch nothing. -/
protected def pure (a : α) : Edit σ α := fun s => ⟨.ok a, s, #[]⟩

/-- Run `m`, then `f` on what it returned. A failure of `m` keeps the state `m` left. -/
protected def bind (m : Edit σ α) (f : α → Edit σ β) : Edit σ β := fun s =>
  match m s with
  | ⟨.ok a, s, events⟩ =>
    match f a s with
    | ⟨result, s, more⟩ => ⟨result, s, events ++ more⟩
  | ⟨.error e, s, events⟩ => ⟨.error e, s, events⟩

/-- In a sequence, each part works on the state that the part before it left. -/
instance : Monad (Edit σ) where
  pure := Edit.pure
  bind := Edit.bind

/-- Refuse to go on, with the state as it is. -/
def fail (e : ColumnError) : Edit σ α := fun s => ⟨.error e, s, #[]⟩

/-- Return what a computation without state and report returns. -/
def ofExcept (x : Except ColumnError α) : Edit σ α := fun s => ⟨x, s, #[]⟩

/-- A result stands for the operation that gives it and touches nothing. -/
instance : MonadLift (Except ColumnError) (Edit σ) := ⟨ofExcept⟩

/-- Compute a value from the state. -/
def reads (f : σ → α) : Edit σ α := fun s => ⟨.ok (f s), s, #[]⟩

/-- Check a condition on the state. -/
def checks (f : σ → Except ColumnError α) : Edit σ α := fun s => ⟨f s, s, #[]⟩

/-- Replace the state. -/
def updates (f : σ → σ) : Edit σ Unit := fun s => ⟨.ok (), f s, #[]⟩

/-- Report an event and touch nothing. -/
def report (e : Event) : Edit σ Unit := fun s => ⟨.ok (), s, #[e]⟩

/-- Run an operation on a part of the state. `split` separates the part from the function that
puts a changed part back. -/
def within (split : σ → τ × (τ → σ)) (m : Edit τ α) : Edit σ α := fun s =>
  match split s with
  | (part, rebuild) =>
    match m part with
    | ⟨result, part, events⟩ => ⟨result, rebuild part, events⟩

/-- The loop behind `forEach`: the events so far are carried along. -/
def forEachFrom (f : ι → Edit σ Unit) : List ι → σ → Array Event → Outcome σ Unit
  | [], s, events => ⟨.ok (), s, events⟩
  | x :: xs, s, events =>
    match f x s with
    | ⟨.ok _, s, more⟩ => forEachFrom f xs s (events ++ more)
    | ⟨.error e, s, more⟩ => ⟨.error e, s, events ++ more⟩

/-- Run an operation for each element of a list in turn, up to the first failure. -/
def forEach (xs : List ι) (f : ι → Edit σ Unit) : Edit σ Unit := fun s =>
  forEachFrom f xs s #[]

/-- Run an operation on a value of one's own and keep what it leaves behind. -/
def runOn (m : Edit σ Unit) (s : σ) : Traced σ :=
  match m s with
  | ⟨.ok _, s, events⟩ => ⟨.ok s, events⟩
  | ⟨.error e, _, events⟩ => ⟨.error e, events⟩

theorem forEachFrom_eq (f : ι → Edit σ Unit) (xs : List ι) (s : σ) (events : Array Event) :
    forEachFrom f xs s events =
      ⟨(forEachFrom f xs s #[]).result, (forEachFrom f xs s #[]).state,
        events ++ (forEachFrom f xs s #[]).events⟩ := by
  induction xs generalizing s events with
  | nil => simp [forEachFrom]
  | cons x xs ih =>
    simp only [forEachFrom]
    rcases f x s with ⟨_ | _, s', more⟩
    · simp
    · simp only
      rw [ih s' (events ++ more), ih s' (#[] ++ more)]
      simp [Array.append_assoc]

/-- The loop is the sequence of its steps. -/
@[simp] theorem forEach_cons (f : ι → Edit σ Unit) (x : ι) (xs : List ι) :
    forEach (x :: xs) f = (do f x; forEach xs f) := by
  funext s
  show forEachFrom f (x :: xs) s #[] = Edit.bind (f x) (fun _ => forEach xs f) s
  simp only [forEachFrom, Edit.bind]
  rcases f x s with ⟨_ | _, s', more⟩
  · simp
  · simp only
    rw [forEachFrom_eq]
    simp [forEach]

end Edit

end Columnar
