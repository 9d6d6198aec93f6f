import Mathlib.Data.Option.Basic

/-!
# A state behind a mutex that is not recursive

The parts of an operation read and write a state and take the mutex that guards it, the whole
operation running alone.  A part that takes the mutex while the operation has it already waits for
itself, and never goes on (`none`).

* `lockGuard_locked`, `bind_eq_none`: a guard where the mutex is taken, and what follows it.
* `Does`: the part returns, does to the state what a function says and leaves the mutex free; the
  rules below build such parts from others.
-/

/-- A state, and whether the operation has locked its mutex. -/
structure GuardedState (σ : Type) where
  value : σ
  locked : Bool

namespace GuardedState

variable {σ α β : Type} {ι : Type*}

/-- A part of an operation. -/
abbrev Part (σ α : Type) := StateT (GuardedState σ) Option α

/-- A state whose mutex is free. -/
def free (value : σ) : GuardedState σ := ⟨value, false⟩

def read (f : σ → α) : Part σ α := fun s => some (f s.value, s)

def write (f : σ → σ) : Part σ Unit := fun s => some ((), { s with value := f s.value })

/-- `std::lock_guard<std::mutex> lock(mutex_);`, and what follows it up to the end of its scope. -/
def lockGuard (body : Part σ α) : Part σ α := fun s =>
  if s.locked then none
  else (body { s with locked := true }).map fun r => (r.1, { r.2 with locked := false })

theorem lockGuard_locked (body : Part σ α) (value : σ) : lockGuard body ⟨value, true⟩ = none := rfl

/-- A part that waits for itself ends the operation there. -/
theorem bind_eq_none {x : Part σ α} {s : GuardedState σ} (h : x s = none) (k : α → Part σ β) :
    (x >>= k) s = none := by
  change (x s).bind _ = none
  rw [h]
  rfl

/-! ### Parts that return -/

/-- Begun with the mutex free, the part returns what the function says, and leaves it free. -/
def Does (x : Part σ α) (f : σ → α × σ) : Prop :=
  ∀ value, x (free value) = some ((f value).1, free (f value).2)

theorem Does.pure (a : α) : Does (pure a : Part σ α) fun s => (a, s) := fun _ => rfl

theorem Does.bind {x : Part σ α} {f : σ → α × σ} {k : α → Part σ β} {g : α → σ → β × σ}
    (hx : Does x f) (hk : ∀ a, Does (k a) (g a)) :
    Does (x >>= k) fun s => g (f s).1 (f s).2 := by
  intro value
  change (x (free value)).bind _ = _
  rw [hx value]
  exact hk _ _

theorem Does.lockGuard_read (f : σ → α) : Does (lockGuard (read f)) fun s => (f s, s) :=
  fun _ => rfl

theorem Does.lockGuard_write (f : σ → σ) : Does (lockGuard (write f)) fun s => ((), f s) :=
  fun _ => rfl

/-- **A loop** does what each of its passes does, one after the other. -/
theorem Does.forM {body : ι → Part σ Unit} {g : σ → ι → σ}
    (h : ∀ x, Does (body x) fun s => ((), g s x)) (xs : List ι) :
    Does (xs.forM body) fun s => ((), xs.foldl g s) := by
  induction xs with
  | nil => exact Does.pure ()
  | cons x xs ih => exact (h x).bind fun _ => ih

end GuardedState
