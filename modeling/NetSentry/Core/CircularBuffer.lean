import NetSentry.Lib.Checked

/-!
# `CircularBuffer`

The fixed-capacity ring of `core/data/circular_buffer.hpp`.  A slot that has not been assigned yet
is `none`.  Each of `push`, `pop` and `peek` holds the buffer's mutex throughout, and `size`,
`empty` and `full` are one load of an atomic, so that a run is a list of operations.
-/

namespace NetSentry

/-- `CircularBuffer<T, Capacity>`.  The element pushed last sits just before `tail`, `size` slots
after `head`. -/
structure CircularBuffer (α : Type*) (capacity : ℕ) where
  buffer : Vector (Option α) capacity
  head : ℕ
  tail : ℕ
  size : ℕ
  size_le : size ≤ capacity
  tail_eq : tail = (head + size) % capacity

namespace CircularBuffer

variable {α : Type*} {capacity : ℕ}

/-- The constructor. -/
def empty : CircularBuffer α capacity where
  buffer := Vector.replicate capacity none
  head := 0
  tail := 0
  size := 0
  size_le := Nat.zero_le _
  tail_eq := (Nat.zero_mod _).symm

/-- `push`: whether the item was taken, and the buffer afterwards. -/
def push (b : CircularBuffer α capacity) (item : α) : Bool × CircularBuffer α capacity :=
  if hfull : b.size = capacity then (false, b)
  else
    have hpos : 0 < capacity := Nat.pos_of_ne_zero fun h0 => hfull (by have := b.size_le; omega)
    (true, {
      buffer := b.buffer.set b.tail (some item) (b.tail_eq ▸ Nat.mod_lt _ hpos)
      head := b.head
      tail := (b.tail + 1) % capacity
      size := b.size + 1
      size_le := Nat.lt_of_le_of_ne b.size_le hfull
      tail_eq := by rw [b.tail_eq, Nat.mod_add_mod, Nat.add_assoc] })

/-- `push(T&&)`, the same critical section with the item moved into its slot. -/
def pushMove (b : CircularBuffer α capacity) (item : α) : Bool × CircularBuffer α capacity :=
  b.push item

open Checked in
/-- `pop`: the item that is taken out, if there is one, and the buffer afterwards.  The slot that is
moved from does not hold a value any more. -/
def pop (b : CircularBuffer α capacity) : Checked (Option (Option α) × CircularBuffer α capacity) :=
  if hempty : b.size = 0 then pure (none, b)
  else do
    let item ← readAt b.buffer.toList b.head
    pure (some item, {
      buffer := b.buffer.setIfInBounds b.head none
      head := (b.head + 1) % capacity
      tail := b.tail
      size := b.size - 1
      size_le := (Nat.sub_le _ _).trans b.size_le
      tail_eq := by
        rw [b.tail_eq, Nat.mod_add_mod, Nat.add_assoc,
          Nat.add_sub_cancel' (Nat.pos_of_ne_zero hempty)] })

open Checked in
/-- `peek`. -/
def peek (b : CircularBuffer α capacity) : Checked (Option (Option α)) :=
  if b.size = 0 then pure none
  else do
    let item ← readAt b.buffer.toList b.head
    pure (some item)

/-- `empty`. -/
def isEmpty (b : CircularBuffer α capacity) : Bool := b.size = 0

/-- `full`. -/
def isFull (b : CircularBuffer α capacity) : Bool := b.size = capacity

/-! ### Operations -/

/-- An operation on a buffer. -/
inductive Op (α : Type*)
  | push (item : α)
  | pushMove (item : α)
  | pop
  | peek
  | size
  | empty
  | full

/-- What an operation returns. -/
inductive Output (α : Type*)
  | flag (b : Bool)
  | item (o : Option α)
  | count (n : ℕ)

/-- What is returned for items is translated item by item. -/
def Output.map {β : Type*} (f : α → β) : Output α → Output β
  | .flag b => .flag b
  | .item o => .item (o.map f)
  | .count n => .count n

/-- The buffer after an operation, and what the operation returns. -/
def call (b : CircularBuffer α capacity) :
    Op α → Checked (Output (Option α) × CircularBuffer α capacity)
  | .push item => pure (.flag (b.push item).1, (b.push item).2)
  | .pushMove item => pure (.flag (b.pushMove item).1, (b.pushMove item).2)
  | .pop => do
    let (item, b) ← b.pop
    pure (.item item, b)
  | .peek => do
    let item ← b.peek
    pure (.item item, b)
  | .size => pure (.count b.size, b)
  | .empty => pure (.flag b.isEmpty, b)
  | .full => pure (.flag b.isFull, b)

/-- The divisors of the remainders that an operation evaluates. -/
def divisors (b : CircularBuffer α capacity) : Op α → List ℕ
  | .push _ | .pushMove _ => if b.size = capacity then [] else [capacity]
  | .pop => if b.size = 0 then [] else [capacity]
  | _ => []

end CircularBuffer

end NetSentry
