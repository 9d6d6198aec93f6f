import Mathlib.Logic.Function.Basic
import NetSentry.Core.CircularBuffer

/-!
# `CircularBuffer` shared by threads

The calls of `push`, `pop`, `size`, `empty` and `full` on one buffer, by any number of threads.  A
step is one change of `mutex_`, one access to the slots, or one read or write of an index or of
`size_`; all steps are sequentially consistent.  A call cannot go on where it waits, nor where it
would access a slot that does not exist or divide by zero.

`peek` is left out: what it returns refers to a slot that is read after the mutex has been unlocked.
-/

namespace NetSentry

namespace SharedBuffer

/-- How far a thread is. -/
inductive Thread (α : Type*)
  | idle
  /-- `push`: `lock_guard<std::mutex> lock(mutex_)`. -/
  | pushLocking (item : α)
  /-- `if (size_ == Capacity)`. -/
  | pushTesting (item : α)
  /-- `buffer_[tail_] = item`. -/
  | storing (item : α)
  /-- `tail_ = (tail_ + 1) % Capacity`. -/
  | movingTail (item : α)
  /-- `++size_`. -/
  | adding (item : α)
  /-- `pop`: `lock_guard<std::mutex> lock(mutex_)`. -/
  | popLocking
  /-- `if (size_ == 0)`. -/
  | popTesting
  /-- `T item = std::move(buffer_[head_])`. -/
  | taking
  /-- `head_ = (head_ + 1) % Capacity`. -/
  | movingHead (item : Option α)
  /-- `--size_`. -/
  | subtracting (item : Option α)
  /-- The end of the guard. -/
  | unlocking (result : CircularBuffer.Output (Option α))
  /-- `size`: the read of `size_`. -/
  | sizeReading
  /-- `empty`: the read of `size_` in `size`. -/
  | emptyReading
  /-- `full`: the read of `size_` in `size`. -/
  | fullReading
  /-- The call returns. -/
  | returning (result : CircularBuffer.Output (Option α))

/-- A call; `push` is either overload. -/
inductive Method (α : Type*)
  | push (item : α)
  | pop
  | size
  | empty
  | full

/-- Where a call begins. -/
def Method.begin {α : Type*} : Method α → Thread α
  | .push item => .pushLocking item
  | .pop => .popLocking
  | .size => .sizeReading
  | .empty => .emptyReading
  | .full => .fullReading

end SharedBuffer

open SharedBuffer in
/-- `CircularBuffer<T, Capacity>` with its mutex, and the threads that use it. -/
structure SharedBuffer (ι α : Type*) (capacity : ℕ) where
  buffer : Vector (Option α) capacity
  head : ℕ
  tail : ℕ
  size : ℕ
  /-- The thread that has locked `mutex_`. -/
  mutex : Option ι
  threads : ι → Thread α

namespace SharedBuffer

variable {ι α : Type*} [DecidableEq ι] {capacity : ℕ}

/-- The constructor. -/
def create (ι α : Type*) (capacity : ℕ) : SharedBuffer ι α capacity where
  buffer := Vector.replicate capacity none
  head := 0
  tail := 0
  size := 0
  mutex := none
  threads := fun _ => .idle

/-- A thread goes on. -/
def goto (s : SharedBuffer ι α capacity) (i : ι) (thread : Thread α) :
    SharedBuffer ι α capacity :=
  { s with threads := Function.update s.threads i thread }

/-- The thread waits for the mutex. -/
def lock (s : SharedBuffer ι α capacity) (i : ι) (thread : Thread α) :
    Option (SharedBuffer ι α capacity) :=
  if s.mutex = none then some ({ s with mutex := some i }.goto i thread) else none

/-- The next step of a thread. -/
def advance (s : SharedBuffer ι α capacity) (i : ι) :
    Thread α → Option (SharedBuffer ι α capacity)
  | .idle => none
  | .pushLocking item => s.lock i (.pushTesting item)
  | .pushTesting item =>
    some (s.goto i (if s.size = capacity then .unlocking (.flag false) else .storing item))
  | .storing item =>
    if s.tail < capacity then
      some ({ s with buffer := s.buffer.setIfInBounds s.tail (some item) }.goto i
        (.movingTail item))
    else none
  | .movingTail item =>
    if 0 < capacity then
      some ({ s with tail := (s.tail + 1) % capacity }.goto i (.adding item))
    else none
  | .adding _ => some ({ s with size := s.size + 1 }.goto i (.unlocking (.flag true)))
  | .popLocking => s.lock i .popTesting
  | .popTesting => some (s.goto i (if s.size = 0 then .unlocking (.item none) else .taking))
  | .taking =>
    match s.buffer.toList[s.head]? with
    -- the slot that is moved from does not hold a value any more
    | some item =>
      some ({ s with buffer := s.buffer.setIfInBounds s.head none }.goto i (.movingHead item))
    | none => none
  | .movingHead item =>
    if 0 < capacity then
      some ({ s with head := (s.head + 1) % capacity }.goto i (.subtracting item))
    else none
  | .subtracting item =>
    some ({ s with size := s.size - 1 }.goto i (.unlocking (.item (some item))))
  | .unlocking result => some ({ s with mutex := none }.goto i (.returning result))
  | .sizeReading => some (s.goto i (.returning (.count s.size)))
  | .emptyReading => some (s.goto i (.returning (.flag (s.size = 0))))
  | .fullReading => some (s.goto i (.returning (.flag (s.size = capacity))))
  | .returning _ => some (s.goto i .idle)

/-- What happens next. -/
inductive Action (ι α : Type*)
  | call (i : ι) (method : Method α)
  | advance (i : ι)

/-- The buffer after a step, where the step can be taken. -/
def step (s : SharedBuffer ι α capacity) : Action ι α → Option (SharedBuffer ι α capacity)
  | .call i method =>
    match s.threads i with
    | .idle => some (s.goto i method.begin)
    | _ => none
  | .advance i => s.advance i (s.threads i)

end SharedBuffer

end NetSentry
