import NetSentry.Core.CircularBuffer
import NetSentry.Lib.Simulation

/-!
# The bounded queue

What a `CircularBuffer` is for: a queue of at most `capacity` items, here the list of them with the
oldest one first.

* `length_final_le`: it never holds more.
* `length_final_add_pops`: the number of items is that of the pushes that were taken less that of
  the pops that found an item.
-/

namespace NetSentry.BoundedQueue

open CircularBuffer Simulation

universe u

variable {α : Type u} {β : Type*} (capacity : ℕ)

/-- An item is appended while there is room. -/
def push (q : List α) (item : α) : Bool × List α :=
  if q.length < capacity then (true, q ++ [item]) else (false, q)

/-- The queue after an operation, and what the operation returns. -/
def step (q : List α) : Op α → Output α × List α
  | .push item | .pushMove item => (.flag (push capacity q item).1, (push capacity q item).2)
  | .pop => (.item q.head?, q.tail)
  | .peek => (.item q.head?, q)
  | .size => (.count q.length, q)
  | .empty => (.flag (q = []), q)
  | .full => (.flag (q.length = capacity), q)

/-- A push that took its item. -/
def isPush : Op α × Output β → Bool
  | (.push _, .flag taken) | (.pushMove _, .flag taken) => taken
  | _ => false

/-- A pop that found an item. -/
def isPop : Op α × Output β → Bool
  | (.pop, .item item) => item.isSome
  | _ => false

variable {capacity}

@[simp] theorem isPush_map (f : α → β) (op : Op α) (o : Output α) :
    isPush (op, o.map f) = isPush (op, o) := by
  cases op <;> cases o <;> rfl

@[simp] theorem isPop_map (f : α → β) (op : Op α) (o : Output α) :
    isPop (op, o.map f) = isPop (op, o) := by
  cases op <;> cases o <;> simp [isPop, Output.map]

/-- **What one operation does to the number of items.** -/
theorem length_step (q : List α) (op : Op α) :
    (step capacity q op).2.length + (isPop (op, (step capacity q op).1)).toNat
      = q.length + (isPush (op, (step capacity q op).1)).toNat := by
  have hpush : ∀ item, (push capacity q item).2.length
      = q.length + (push capacity q item).1.toNat := by
    intro item
    unfold push
    split_ifs <;> simp
  cases op with
  | push item => exact hpush item
  | pushMove item => exact hpush item
  | pop =>
    cases q with
    | nil => rfl
    | cons x q => rfl
  | peek => rfl
  | size => rfl
  | empty => rfl
  | full => rfl

theorem length_step_le {q : List α} (h : q.length ≤ capacity) (op : Op α) :
    (step capacity q op).2.length ≤ capacity := by
  have hpush : ∀ item, (push capacity q item).2.length ≤ capacity := by
    intro item
    unfold push
    split_ifs with hroom
    · rw [List.length_append, List.length_singleton]
      omega
    · exact h
  cases op with
  | push item => exact hpush item
  | pushMove item => exact hpush item
  | pop =>
    show q.tail.length ≤ capacity
    rw [List.length_tail]
    omega
  | peek => exact h
  | size => exact h
  | empty => exact h
  | full => exact h

theorem length_final_le {q : List α} (h : q.length ≤ capacity) (ops : List (Op α)) :
    (final (step capacity) q ops).length ≤ capacity := by
  induction ops generalizing q with
  | nil => exact h
  | cons op ops ih => exact ih (length_step_le h op)

/-- **Pushes less pops.** -/
theorem length_final_add_pops (q : List α) (ops : List (Op α)) :
    (final (step capacity) q ops).length
        + (ops.zip (outputs (step capacity) q ops)).countP isPop
      = q.length + (ops.zip (outputs (step capacity) q ops)).countP isPush := by
  induction ops generalizing q with
  | nil => rfl
  | cons op ops ih =>
    have hstep := @length_step α capacity q op
    have hrest := ih (step capacity q op).2
    rw [outputs, List.zip_cons_cons, List.countP_cons, List.countP_cons]
    show (final (step capacity) (step capacity q op).2 ops).length + _ = _
    cases hpop : isPop (op, (step capacity q op).1) <;>
      cases hpush : isPush (op, (step capacity q op).1) <;>
      simp only [hpop, hpush, Bool.toNat_true, Bool.toNat_false, if_true, if_false,
        Bool.false_eq_true] at hstep hrest ⊢ <;>
      omega

end NetSentry.BoundedQueue
