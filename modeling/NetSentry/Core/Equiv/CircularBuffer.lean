import Mathlib.Data.List.Induction
import Mathlib.Data.Nat.ModEq
import NetSentry.Core.BoundedQueue

/-!
# `CircularBuffer` is a bounded queue

`run_refines`: the buffer answers every sequence of operations as the bounded queue does.

* `Represents`: the slots from `head` on, wrapped around, are the items of the queue.
* `represents_push`, `represents_pop`: the relation after an operation that changes the buffer.
* `simulates_call`: the two agree on every operation.
-/

namespace NetSentry.CircularBuffer

open Checked Simulation BoundedQueue

universe u

variable {α : Type u} {capacity : ℕ}

/-- The items in the buffer, the oldest first. -/
def contents (b : CircularBuffer α capacity) : List (Option α) :=
  (List.range b.size).map fun i => (b.buffer[(b.head + i) % capacity]?).join

/-- The slots from `head` on, wrapped around, are the items of the queue. -/
structure Represents (b : CircularBuffer α capacity) (q : List α) : Prop where
  size_eq : b.size = q.length
  head_lt : 0 < capacity → b.head < capacity
  slot_eq : ∀ i x, q[i]? = some x → b.buffer[(b.head + i) % capacity]? = some (some x)

/-- Two places less than a turn apart are different slots. -/
theorem wrap_ne {head i j : ℕ} (hi : i < capacity) (hj : j < capacity) (hij : i ≠ j) :
    (head + i) % capacity ≠ (head + j) % capacity := by
  intro h
  have hmod : i ≡ j [MOD capacity] := Nat.ModEq.add_left_cancel' head h
  exact hij (hmod.eq_of_lt_of_lt hi hj)

theorem represents_empty : Represents (empty : CircularBuffer α capacity) [] where
  size_eq := rfl
  head_lt := fun h => h
  slot_eq := fun i x h => by simp at h

theorem Represents.contents_eq {b : CircularBuffer α capacity} {q : List α}
    (h : Represents b q) : b.contents = q.map some := by
  apply List.ext_getElem
  · rw [contents, List.length_map, List.length_range, List.length_map, h.size_eq]
  · intro i hi hi'
    rw [List.length_map] at hi'
    have hslot := h.slot_eq i q[i] (List.getElem?_eq_getElem hi')
    simp only [contents, List.getElem_map, List.getElem_range, hslot, Option.join_some]

/-! ### Operations -/

/-- A push takes its item while there is room. -/
theorem represents_push {b : CircularBuffer α capacity} {q : List α} (h : Represents b q)
    (item : α) :
    (b.push item).1 = (BoundedQueue.push capacity q item).1 ∧
      Represents (b.push item).2 (BoundedQueue.push capacity q item).2 := by
  have hle := b.size_le
  have hsize := h.size_eq
  unfold push BoundedQueue.push
  rw [← h.size_eq]
  by_cases hfull : b.size = capacity
  · rw [dif_pos hfull, if_neg (by omega)]
    exact ⟨rfl, h⟩
  · have hroom : b.size < capacity := Nat.lt_of_le_of_ne hle hfull
    rw [dif_neg hfull, if_pos hroom]
    refine ⟨rfl, ?_, h.head_lt, ?_⟩
    · show b.size + 1 = (q ++ [item]).length
      rw [List.length_append, List.length_singleton, h.size_eq]
    · intro i x hx
      have htail_lt : b.tail < capacity := b.tail_eq ▸ Nat.mod_lt _ (by omega)
      show (b.buffer.set b.tail (some item) htail_lt)[(b.head + i) % capacity]? = _
      rw [Vector.getElem?_set]
      rcases Nat.lt_trichotomy i q.length with hi | rfl | hi
      · -- an item that was there before, in another slot
        rw [List.getElem?_append_left hi] at hx
        have hne : b.tail ≠ (b.head + i) % capacity := by
          rw [b.tail_eq, h.size_eq]
          exact wrap_ne (by omega) (by omega) (by omega)
        rw [if_neg hne]
        exact h.slot_eq i x hx
      · have htail : b.tail = (b.head + q.length) % capacity := by rw [b.tail_eq, h.size_eq]
        rw [List.getElem?_concat_length] at hx
        rw [if_pos htail, ← Option.some.inj hx]
      · rw [List.getElem?_eq_none (by rw [List.length_append, List.length_singleton]; omega)] at hx
        cases hx

/-- The slot at `head` holds the oldest item. -/
theorem Represents.readAt_head {b : CircularBuffer α capacity} {x : α} {q : List α}
    (h : Represents b (x :: q)) : readAt b.buffer.toList b.head = .ok (some x) := by
  have hsize := h.size_eq
  have hle := b.size_le
  rw [List.length_cons] at hsize
  have hslot := h.slot_eq 0 x rfl
  rw [Nat.add_zero, Nat.mod_eq_of_lt (h.head_lt (by omega))] at hslot
  apply readAt_of_getElem?
  rw [← hslot]
  exact Vector.getElem?_toList

/-- A pop takes the oldest item out. -/
theorem represents_pop {b : CircularBuffer α capacity} {q : List α} (h : Represents b q) :
    ∃ b', b.pop = .ok (q.head?.map some, b') ∧ Represents b' q.tail := by
  have hsize := h.size_eq
  unfold pop
  cases q with
  | nil =>
    rw [dif_pos (show b.size = 0 from hsize)]
    exact ⟨b, rfl, h⟩
  | cons x q =>
    rw [List.length_cons] at hsize
    have hle := b.size_le
    have hpos : 0 < capacity := by omega
    rw [dif_neg (by omega), h.readAt_head]
    refine ⟨_, rfl, ?_, fun _ => Nat.mod_lt _ hpos, ?_⟩
    · show b.size - 1 = q.length
      omega
    · intro i y hy
      have hi : i < q.length := (List.getElem?_eq_some_iff.mp hy).1
      have hwrap : ((b.head + 1) % capacity + i) % capacity = (b.head + (i + 1)) % capacity := by
        rw [Nat.mod_add_mod, Nat.add_assoc, Nat.add_comm 1 i]
      -- the slot at `head` is not among those of the items that are left
      have hne : b.head ≠ (b.head + (i + 1)) % capacity := by
        have hwrapNe := @wrap_ne capacity b.head 0 (i + 1) hpos (by omega) (by omega)
        rwa [Nat.add_zero, Nat.mod_eq_of_lt (h.head_lt hpos)] at hwrapNe
      show (b.buffer.setIfInBounds b.head none)[((b.head + 1) % capacity + i) % capacity]? = _
      rw [hwrap, Vector.getElem?_setIfInBounds_ne hne]
      exact h.slot_eq (i + 1) y hy

theorem peek_eq {b : CircularBuffer α capacity} {q : List α} (h : Represents b q) :
    b.peek = .ok (q.head?.map some) := by
  have hsize := h.size_eq
  unfold peek
  cases q with
  | nil =>
    rw [if_pos (show b.size = 0 from hsize)]
    rfl
  | cons x q =>
    rw [List.length_cons] at hsize
    rw [if_neg (by omega), h.readAt_head]
    rfl

/-- **The buffer and the queue agree** on every operation. -/
theorem simulates_call :
    Simulates (@call α capacity) (BoundedQueue.step capacity) (Output.map some) Represents := by
  intro b q op h
  cases op with
  | push item =>
    obtain ⟨hflag, hrep⟩ := represents_push h item
    exact ⟨_, by rw [call, hflag]; rfl, hrep⟩
  | pushMove item =>
    obtain ⟨hflag, hrep⟩ := represents_push h item
    exact ⟨_, by rw [call, pushMove, hflag]; rfl, hrep⟩
  | pop =>
    obtain ⟨b', hpop, hrep⟩ := represents_pop h
    exact ⟨b', by rw [call, hpop]; rfl, hrep⟩
  | peek => exact ⟨b, by rw [call, peek_eq h]; rfl, h⟩
  | size => exact ⟨b, by rw [call, h.size_eq]; rfl, h⟩
  | empty =>
    refine ⟨b, ?_, h⟩
    rw [call, isEmpty, h.size_eq]
    cases q <;> rfl
  | full => exact ⟨b, by rw [call, isFull, h.size_eq]; rfl, h⟩

/-! ### Pushing alone -/

/-- A buffer that is only pushed into keeps the items it got first. -/
theorem represents_foldl_push (xs : List α) :
    Represents (xs.foldl (fun b x => (b.push x).2) (empty : CircularBuffer α capacity))
      (xs.take capacity) := by
  induction xs using List.reverseRecOn with
  | nil =>
    rw [List.take_nil]
    exact represents_empty
  | append_singleton xs x ih =>
    have hpush := (represents_push ih x).2
    rw [List.foldl_concat]
    convert hpush using 1
    unfold BoundedQueue.push
    rw [List.length_take]
    split_ifs with hroom
    · have hlt : xs.length < capacity := by omega
      rw [List.take_of_length_le (by simp; omega), List.take_of_length_le hlt.le]
    · exact List.take_append_of_le_length (by omega)

/-- **The first items are the last ones** of a sequence exactly when it has the period that
separates them. -/
theorem take_eq_drop_iff (xs : List α) (n : ℕ) :
    xs.take n = xs.drop (xs.length - n) ↔
      ∀ i, i + (xs.length - n) < xs.length → xs[i + (xs.length - n)]? = xs[i]? := by
  constructor
  · intro h i hi
    have hget : (xs.take n)[i]? = (xs.drop (xs.length - n))[i]? := by rw [h]
    rw [List.getElem?_take_of_lt (by omega), List.getElem?_drop, Nat.add_comm] at hget
    exact hget.symm
  · intro h
    apply List.ext_getElem?
    intro i
    rw [List.getElem?_drop, Nat.add_comm]
    by_cases hi : i + (xs.length - n) < xs.length
    · rw [List.getElem?_take_of_lt (by omega), h i hi]
    · have htake : (xs.take n).length ≤ i := by
        rw [List.length_take]
        omega
      rw [List.getElem?_eq_none htake, List.getElem?_eq_none (by omega)]

/-! ### Runs -/

/-- A remainder is only taken by a capacity that is not zero. -/
theorem zero_notMem_divisors (b : CircularBuffer α capacity) (op : Op α) : 0 ∉ b.divisors op := by
  have hle := b.size_le
  intro h
  -- an empty ring is full, so that nothing is put into it
  cases op <;> simp [divisors] at h <;> omega

/-- **The buffer is a queue of at most `capacity` items**, for every sequence of operations.  It
gives the answers of the queue and holds its items, it makes no access outside its slots, its size
is the number of pushes that were taken less that of the pops that found an item, and it never takes
a remainder by zero. -/
theorem run_refines (ops : List (Op α)) :
    ∃ os b, run call (empty : CircularBuffer α capacity) ops = .ok (os, b) ∧
      os = (outputs (BoundedQueue.step capacity) [] ops).map (Output.map some) ∧
      b.contents = (final (BoundedQueue.step capacity) [] ops).map some ∧
      (final (BoundedQueue.step capacity) [] ops).length ≤ capacity ∧
      b.size + (ops.zip os).countP isPop = (ops.zip os).countP isPush ∧
      ∀ op, 0 ∉ b.divisors op := by
  obtain ⟨b, hrun, hrep⟩ := run_of_simulates simulates_call represents_empty ops
  refine ⟨_, b, hrun, rfl, hrep.contents_eq, length_final_le (Nat.zero_le _) ops, ?_,
    b.zero_notMem_divisors⟩
  have hcount := @length_final_add_pops α capacity [] ops
  rw [List.zip_map_right, List.countP_map, List.countP_map, hrep.size_eq]
  calc (final (BoundedQueue.step capacity) [] ops).length
        + (ops.zip (outputs (BoundedQueue.step capacity) [] ops)).countP (isPop ∘ _)
      = _ + (ops.zip (outputs (BoundedQueue.step capacity) [] ops)).countP isPop := by
        congr 2
        funext ⟨op, o⟩
        exact isPop_map some op o
    _ = (ops.zip (outputs (BoundedQueue.step capacity) [] ops)).countP isPush := by
        rw [hcount]
        exact Nat.zero_add _
    _ = _ := by
        congr 1
        funext ⟨op, o⟩
        exact (isPush_map some op o).symm

end NetSentry.CircularBuffer
