import Mathlib.Order.Interval.Finset.Nat
import NetSentry.Core.Equiv.LockFreeQueue

/-!
# The lock-free queue used sequentially

When calls do not overlap and no compare-exchange fails spuriously, the queue is an unbounded first
in, first out queue.

* `finish`, `Session`: whole calls, and a queue with what has happened to it.
* `Fifo`: the histories of an unbounded first in, first out queue.
* `sequential_fifo`: the histories of a session, its size, the end of its calls and of its
  destructor.

`Quiet` is a queue between calls, of which `pop` and the destructor take the nodes one after the
other; `Holds` is what a call keeps: the chain from `head_` visits the dummy node and then the nodes
of the values in the queue, and these are the nodes that exist.
-/

namespace NetSentry.LockFreeQueue

open Transition

variable {ι α : Type*} [DecidableEq ι] {s t : LockFreeQueue ι α}

/-! ### Whole calls -/

/-- The nodes that the next step of a call deletes. -/
def Operation.deletes : Operation α → List ℕ
  | .deleteHead oldHead _ => [oldHead]
  | _ => []

/-- What a call of `pop` has returned. -/
def Operation.result : Operation α → Option α
  | .returned result => result
  | _ => none

/-- The call that thread `i` is in takes its steps one after the other, at most `fuel` of them and
without a spurious failure: the queue when the call has ended, and the nodes deleted. -/
def finish (i : ι) : ℕ → LockFreeQueue ι α → Option (LockFreeQueue ι α × List ℕ)
  | 0, s => if (s.threads i).ended then some (s, []) else none
  | fuel + 1, s =>
    if (s.threads i).ended then some (s, [])
    else (s.advance i false (s.threads i)).bind fun t =>
      (finish i fuel t).map fun r => (r.1, (s.threads i).deletes ++ r.2)

/-- A call by thread `i`; for `push` with the address that `new` returns. -/
inductive Call (ι α : Type*)
  | push (i : ι) (newNode : ℕ) (value : α)
  | pop (i : ι)

/-- What a call has done. -/
inductive Event (α : Type*)
  | pushed (value : α)
  | popped (result : Option α)

/-- A queue whose calls do not overlap, with the calls that have been made, in their order, and the
addresses of the nodes that have been made and deleted. -/
structure Session (ι α : Type*) where
  queue : LockFreeQueue ι α
  events : List (Event α)
  allocated : List ℕ
  deleted : List ℕ

namespace Session

/-- The constructor, with the address of the dummy node. -/
def create (dummy : ℕ) : Session ι α where
  queue := .create dummy
  events := []
  allocated := [dummy]
  deleted := []

/-- A whole call, of at most `fuel` steps. -/
def call (s : Session ι α) (fuel : ℕ) : Call ι α → Option (Session ι α)
  | .push i newNode value =>
    (s.queue.step (.push i newNode value)).bind fun begun =>
      (finish i fuel begun).map fun r => {
        queue := r.1
        events := s.events ++ [.pushed value]
        allocated := s.allocated ++ [newNode]
        deleted := s.deleted ++ r.2 }
  | .pop i =>
    (s.queue.step (.pop i)).bind fun begun =>
      (finish i fuel begun).map fun r => {
        queue := r.1
        events := s.events ++ [.popped (r.1.threads i).result]
        allocated := s.allocated
        deleted := s.deleted ++ r.2 }

/-- The destructor, in thread `i`: at most `pops` calls of `pop`, the last of which finds nothing,
then the deletion of the dummy node. -/
def destroy (fuel : ℕ) (i : ι) : ℕ → Session ι α → Option (Session ι α)
  | 0, _ => none
  | pops + 1, s =>
    (s.call fuel (.pop i)).bind fun t =>
      if (t.queue.threads i).result.isSome then destroy fuel i pops t
      else (t.queue.heap t.queue.head).map fun _ =>
        { t with
          queue := { t.queue with heap := Function.update t.queue.heap t.queue.head none }
          deleted := t.deleted ++ [t.queue.head] }

end Session

/-- An address of 64 bits. -/
def Call.Addressable : Call ι α → Prop
  | .push _ newNode _ => newNode < 2 ^ 64
  | .pop _ => True

/-- The history of an unbounded first in, first out queue, and what it holds in the end, the oldest
value first. -/
inductive Fifo : List (Event α) → List α → Prop
  | nil : Fifo [] []
  | pushed {events : List (Event α)} {values : List α} (value : α) (h : Fifo events values) :
    Fifo (events ++ [.pushed value]) (values ++ [value])
  | popped {events : List (Event α)} {values : List α} (h : Fifo events values) :
    Fifo (events ++ [.popped values.head?]) values.tail

/-! ### The steps of a call -/

@[simp] theorem threads_goto (s : LockFreeQueue ι α) (i : ι) (op : Operation α) :
    (s.goto i op).threads i = op := Function.update_self ..

theorem threads_goto_of_ne (s : LockFreeQueue ι α) {i j : ι} (op : Operation α) (h : j ≠ i) :
    (s.goto i op).threads j = s.threads j := Function.update_of_ne h ..

@[simp] theorem heap_goto (s : LockFreeQueue ι α) (i : ι) (op : Operation α) :
    (s.goto i op).heap = s.heap := rfl

@[simp] theorem head_goto (s : LockFreeQueue ι α) (i : ι) (op : Operation α) :
    (s.goto i op).head = s.head := rfl

@[simp] theorem tail_goto (s : LockFreeQueue ι α) (i : ι) (op : Operation α) :
    (s.goto i op).tail = s.tail := rfl

@[simp] theorem size_goto (s : LockFreeQueue ι α) (i : ι) (op : Operation α) :
    (s.goto i op).size = s.size := rfl

/-- Where the call was before does not matter. -/
@[simp] theorem goto_threads_goto (s : LockFreeQueue ι α) (i : ι) (op op' : Operation α)
    (heap : ℕ → Option (Node α)) (head tail : ℕ) (size : UInt64) :
    (⟨heap, head, tail, size, (s.goto i op).threads⟩ : LockFreeQueue ι α).goto i op'
      = (⟨heap, head, tail, size, s.threads⟩ : LockFreeQueue ι α).goto i op' := by
  simp [goto]

@[simp] theorem goto_goto (s : LockFreeQueue ι α) (i : ι) (op op' : Operation α) :
    (s.goto i op).goto i op' = s.goto i op' := by
  simp [goto]

theorem finish_of_ended {i : ι} (fuel : ℕ) (h : (s.threads i).ended = true) :
    finish i fuel s = some (s, []) := by
  cases fuel with
  | zero => rw [finish, if_pos h]
  | succ fuel => rw [finish, if_pos h]

/-- One step of a call that has not ended. -/
theorem finish_goto {i : ι} {fuel : ℕ} {op : Operation α} (hop : op.ended = false)
    (hstep : (s.goto i op).advance i false op = some t) :
    finish i (fuel + 1) (s.goto i op)
      = (finish i fuel t).map fun r => (r.1, op.deletes ++ r.2) := by
  rw [finish, threads_goto, if_neg (by simp [hop]), hstep, Option.bind_some]

/-- **The steps of `push`** where `tail_` designates the last node. -/
theorem finish_push {i : ι} {newNode : ℕ} {node : Node α} (htail : s.heap s.tail = some node)
    (hlast : node.next = 0) :
    finish i 6 (s.goto i (.loadTail newNode 0))
      = some ({ s with
          heap := Function.update s.heap s.tail (some { node with next := newNode })
          tail := newNode
          size := s.size + 1 }.goto i .idle, []) := by
  have hload : (s.goto i (.loadTail newNode 0)).advance i false (.loadTail newNode 0)
      = some (s.goto i (.loadNext newNode 0 s.tail)) := by simp [advance]
  have hnext : (s.goto i (.loadNext newNode 0 s.tail)).advance i false (.loadNext newNode 0 s.tail)
      = some (s.goto i (.recheckTail newNode 0 s.tail 0)) := by simp [advance, htail, hlast]
  have hrecheck : (s.goto i (.recheckTail newNode 0 s.tail 0)).advance i false
      (.recheckTail newNode 0 s.tail 0) = some (s.goto i (.linkNode newNode 0 s.tail)) := by
    simp [advance]
  set linked : LockFreeQueue ι α := { s with
    heap := Function.update s.heap s.tail (some { node with next := newNode }) }
  have hlink : (s.goto i (.linkNode newNode 0 s.tail)).advance i false (.linkNode newNode 0 s.tail)
      = some (linked.goto i (.swingTail newNode s.tail)) := by
    simp [advance, htail, hlast, linked]
  have hswing : (linked.goto i (.swingTail newNode s.tail)).advance i false
      (.swingTail newNode s.tail) = some ({ linked with tail := newNode }.goto i .addSize) := by
    simp [advance, linked]
  have hadd : ({ linked with tail := newNode }.goto i .addSize).advance i false .addSize
      = some ({ linked with tail := newNode, size := s.size + 1 }.goto i .idle) := by
    simp [advance, linked]
  rw [finish_goto rfl hload, finish_goto rfl hnext, finish_goto rfl hrecheck,
    finish_goto rfl hlink, finish_goto rfl hswing, finish_goto rfl hadd,
    finish_of_ended _ (by simp [Operation.ended])]
  rfl

/-- **The steps of `pop`** where there is no value. -/
theorem finish_pop_empty {i : ι} {node : Node α} (hhead : s.heap s.head = some node)
    (hlast : node.next = 0) :
    finish i 6 (s.goto i .loadHead) = some (s.goto i (.returned none), []) := by
  have hload : (s.goto i .loadHead).advance i false .loadHead
      = some (s.goto i (.loadHeadNext s.head)) := by simp [advance]
  have hnext : (s.goto i (.loadHeadNext s.head)).advance i false (.loadHeadNext s.head)
      = some (s.goto i (.returned none)) := by simp [advance, hhead, hlast]
  rw [finish_goto rfl hload, finish_goto rfl hnext, finish_of_ended _ (by simp [Operation.ended])]
  rfl

/-- **The steps of `pop`** where there is a value. -/
theorem finish_pop {i : ι} {node first : Node α} {value : α}
    (hhead : s.heap s.head = some node) (hfirst : s.heap node.next = some first)
    (hne : node.next ≠ 0) (hvalue : first.data = some value) :
    finish i 6 (s.goto i .loadHead)
      = some ({ s with
          heap := Function.update s.heap s.head none
          head := node.next
          size := s.size - 1 }.goto i (.returned (some value)), [s.head]) := by
  have hload : (s.goto i .loadHead).advance i false .loadHead
      = some (s.goto i (.loadHeadNext s.head)) := by simp [advance]
  have hnext : (s.goto i (.loadHeadNext s.head)).advance i false (.loadHeadNext s.head)
      = some (s.goto i (.moveHead s.head node.next)) := by simp [advance, hhead, hne]
  set moved : LockFreeQueue ι α := { s with head := node.next }
  have hmove : (s.goto i (.moveHead s.head node.next)).advance i false (.moveHead s.head node.next)
      = some (moved.goto i (.readData s.head node.next)) := by simp [advance, moved]
  have hread : (moved.goto i (.readData s.head node.next)).advance i false
      (.readData s.head node.next) = some (moved.goto i (.deleteHead s.head (some value))) := by
    simp [advance, moved, hfirst, hvalue]
  set left : LockFreeQueue ι α := { moved with heap := Function.update s.heap s.head none }
  have hdelete : (moved.goto i (.deleteHead s.head (some value))).advance i false
      (.deleteHead s.head (some value)) = some (left.goto i (.subSize (some value))) := by
    simp [advance, moved, left, hhead]
  have hsub : (left.goto i (.subSize (some value))).advance i false (.subSize (some value))
      = some ({ left with size := s.size - 1 }.goto i (.returned (some value))) := by
    simp [advance, left, moved]
  rw [finish_goto rfl hload, finish_goto rfl hnext, finish_goto rfl hmove, finish_goto rfl hread,
    finish_goto rfl hdelete, finish_goto rfl hsub, finish_of_ended _ (by simp [Operation.ended])]
  rfl

/-- More steps than a call needs make no difference. -/
theorem finish_of_le {i : ι} {fuel fuel' : ℕ} {r : LockFreeQueue ι α × List ℕ}
    (h : finish i fuel s = some r) (hle : fuel ≤ fuel') : finish i fuel' s = some r := by
  induction fuel generalizing s fuel' r with
  | zero =>
    rw [finish] at h
    split_ifs at h with hended
    rw [finish_of_ended fuel' hended, h]
  | succ fuel ih =>
    obtain ⟨more, rfl⟩ := Nat.exists_eq_add_of_le' hle
    rw [finish] at h
    by_cases hended : (s.threads i).ended = true
    · rw [if_pos hended] at h
      rw [finish_of_ended _ hended, h]
    · rw [if_neg hended] at h
      obtain ⟨next, hnext, hrest⟩ := Option.bind_eq_some_iff.mp h
      obtain ⟨r', hr', rfl⟩ := Option.map_eq_some_iff.mp hrest
      rw [← Nat.add_assoc, finish, if_neg hended, hnext, Option.bind_some,
        ih hr' (Nat.le_add_left _ _), Option.map_some]

/-- A call has one outcome. -/
theorem finish_unique {i : ι} {fuel fuel' : ℕ} {r r' : LockFreeQueue ι α × List ℕ}
    (h : finish i fuel s = some r) (h' : finish i fuel' s = some r') : r = r' := by
  have hmax := finish_of_le h (Nat.le_max_left fuel fuel')
  rw [finish_of_le h' (Nat.le_max_right fuel fuel')] at hmax
  exact (Option.some.inj hmax).symm

/-! ### A queue at rest -/

/-- The data of a node. -/
def dataIn (heap : ℕ → Option (Node α)) (address : ℕ) : Option α := (heap address).bind (·.data)

/-- No call is in progress: the nodes that exist are the dummy node, which `head_` designates, and
others with values behind it.  `tail_` may lag behind, and the counter may be ahead. -/
structure Quiet (s : LockFreeQueue ι α) (nodes : List ℕ) : Prop where
  chain : Chain (nextIn s.heap) 0 s.head (s.head :: nodes)
  live : ∀ x, (s.heap x).isSome ↔ x ∈ s.head :: nodes
  values : ∀ x ∈ nodes, (dataIn s.heap x).isSome
  ended : ∀ i, (s.threads i).ended = true

theorem ended_goto {i : ι} {op : Operation α} (hop : op.ended = true)
    (h : ∀ j, (s.threads j).ended = true) (j : ι) : ((s.goto i op).threads j).ended = true := by
  by_cases hji : j = i
  · subst hji
    rwa [threads_goto]
  · rw [threads_goto_of_ne s op hji]
    exact h j

section Quiet

variable {session : Session ι α} {nodes : List ℕ}

/-- **A call of `pop`** that finds nothing. -/
theorem Quiet.pop_nil (h : Quiet session.queue []) (i : ι) :
    session.call 6 (.pop i) = some {
      queue := session.queue.goto i (.returned none)
      events := session.events ++ [.popped none]
      allocated := session.allocated
      deleted := session.deleted ++ [] } := by
  obtain ⟨node, hnode⟩ := Option.isSome_iff_exists.mp ((h.live _).mpr List.mem_cons_self)
  have hchain : Chain (nextIn session.queue.heap) 0 session.queue.head
      ([] ++ [session.queue.head]) := h.chain
  have hlast : node.next = 0 := (nextIn_of_eq_some hnode).symm.trans hchain.next_eq_null
  have hstep : session.queue.step (.pop i) = some (session.queue.goto i .loadHead) :=
    if_pos (h.ended i)
  rw [Session.call, hstep, Option.bind_some, finish_pop_empty hnode hlast, Option.map_some,
    threads_goto]
  rfl

/-- **A call of `pop`** takes the value of the first node behind the dummy node, which it
deletes. -/
theorem Quiet.pop_cons {x : ℕ} (h : Quiet session.queue (x :: nodes)) (i : ι) :
    ∃ value, dataIn session.queue.heap x = some value ∧
      session.call 6 (.pop i) = some {
        queue := { session.queue with
          heap := Function.update session.queue.heap session.queue.head none
          head := x
          size := session.queue.size - 1 }.goto i (.returned (some value))
        events := session.events ++ [.popped (some value)]
        allocated := session.allocated
        deleted := session.deleted ++ [session.queue.head] } := by
  obtain ⟨node, hhead⟩ := Option.isSome_iff_exists.mp ((h.live _).mpr List.mem_cons_self)
  obtain ⟨value, hdata⟩ := Option.isSome_iff_exists.mp (h.values x List.mem_cons_self)
  obtain ⟨first, hfirst, hvalue⟩ := Option.bind_eq_some_iff.mp hdata
  -- the chain goes on from the dummy node to the first node behind it
  have hrest : Chain (nextIn session.queue.heap) 0 (nextIn session.queue.heap session.queue.head)
      (x :: nodes) := h.chain.tail
  have hne : x ≠ 0 := hrest.ne_null List.mem_cons_self
  have hnext : node.next = x := (nextIn_of_eq_some hhead).symm.trans hrest.head_eq
  have hstep : session.queue.step (.pop i) = some (session.queue.goto i .loadHead) :=
    if_pos (h.ended i)
  refine ⟨value, hdata, ?_⟩
  rw [Session.call, hstep, Option.bind_some,
    finish_pop hhead (hnext ▸ hfirst) (hnext ▸ hne) hvalue, Option.map_some, threads_goto, hnext]
  rfl

/-- The queue is at rest after a call of `pop` as well, without its dummy node. -/
theorem Quiet.tail {x : ℕ} (h : Quiet s (x :: nodes)) (i : ι) (size : UInt64) (result : Option α) :
    Quiet ({ s with heap := Function.update s.heap s.head none, head := x, size := size }.goto i
      (.returned result)) nodes := by
  have hnodup := List.nodup_cons.mp h.chain.nodup
  have hother : ∀ y ∈ x :: nodes, y ≠ s.head := by
    rintro y hy rfl
    exact hnodup.1 hy
  have hrest : Chain (nextIn s.heap) 0 (nextIn s.heap s.head) (x :: nodes) := h.chain.tail
  rw [hrest.head_eq] at hrest
  exact {
    chain := hrest.congr fun y hy => nextIn_update_of_ne s.heap none (hother y hy)
    live := by
      intro y
      show (Function.update s.heap s.head none y).isSome ↔ y ∈ x :: nodes
      by_cases hy : y = s.head
      · rw [hy, Function.update_self]
        exact iff_of_false Bool.false_ne_true hnodup.1
      · rw [Function.update_of_ne hy, h.live y, List.mem_cons]
        exact or_iff_right hy
    values := by
      intro y hy
      show (dataIn (Function.update s.heap s.head none) y).isSome
      rw [dataIn, Function.update_of_ne (hother y (List.mem_cons_of_mem x hy))]
      exact h.values y (List.mem_cons_of_mem x hy)
    ended := ended_goto rfl h.ended }

/-- **The destructor** ends, and deletes the nodes in their order. -/
theorem Quiet.destroy (h : Quiet session.queue nodes) (i : ι) :
    ∃ t, session.destroy 6 i (nodes.length + 1) = some t ∧ (∀ x, t.queue.heap x = none) ∧
      t.allocated = session.allocated ∧
      t.deleted = session.deleted ++ session.queue.head :: nodes := by
  induction nodes generalizing session with
  | nil =>
    obtain ⟨node, hnode⟩ := Option.isSome_iff_exists.mp ((h.live _).mpr List.mem_cons_self)
    refine ⟨{
      queue := { session.queue.goto i (.returned none) with
        heap := Function.update session.queue.heap session.queue.head none }
      events := session.events ++ [.popped none]
      allocated := session.allocated
      deleted := session.deleted ++ [] ++ [session.queue.head] }, ?_, ?_, rfl, ?_⟩
    · rw [List.length_nil, Session.destroy, h.pop_nil i, Option.bind_some, threads_goto,
        if_neg (by exact Bool.false_ne_true)]
      show (session.queue.heap session.queue.head).map _ = _
      rw [hnode]
      rfl
    · -- the dummy node was the only one
      intro x
      show Function.update session.queue.heap session.queue.head none x = none
      by_cases hx : x = session.queue.head
      · rw [hx, Function.update_self]
      · rw [Function.update_of_ne hx, ← Option.not_isSome_iff_eq_none, h.live x]
        exact fun hmem => hx (List.mem_singleton.mp hmem)
    · rw [List.append_nil]
  | cons x nodes ih =>
    obtain ⟨value, -, hcall⟩ := h.pop_cons i
    obtain ⟨t, hdestroy, hheap, hallocated, hdeleted⟩ :=
      @ih ⟨_, session.events ++ [.popped (some value)], session.allocated,
        session.deleted ++ [session.queue.head]⟩ (h.tail i (session.queue.size - 1) (some value))
    refine ⟨t, ?_, hheap, hallocated, ?_⟩
    · rw [List.length_cons, Session.destroy, hcall, Option.bind_some, threads_goto]
      exact hdestroy
    · rw [hdeleted, List.append_assoc]
      rfl

end Quiet

/-! ### The invariant -/

/-- The queue of the session holds the values, in these nodes after the dummy node. -/
structure Holds (s : Session ι α) (nodes : List ℕ) (values : List α) : Prop where
  chain : Chain (nextIn s.queue.heap) 0 s.queue.head (s.queue.head :: nodes)
  tail_eq : (s.queue.head :: nodes).getLast (List.cons_ne_nil _ _) = s.queue.tail
  data : nodes.map (dataIn s.queue.heap) = values.map some
  live : ∀ x, (s.queue.heap x).isSome ↔ x ∈ s.queue.head :: nodes
  below : ∀ x ∈ s.queue.head :: nodes, x < 2 ^ 64
  size_eq : s.queue.size.toNat = values.length
  ended : ∀ i, (s.queue.threads i).ended = true
  counts : ∀ x, s.allocated.count x
    = s.deleted.count x + if x ∈ s.queue.head :: nodes then 1 else 0
  fifo : Fifo s.events values

omit [DecidableEq ι] in
theorem holds_create {dummy : ℕ} (hne : dummy ≠ 0) (hbelow : dummy < 2 ^ 64) :
    Holds (.create dummy : Session ι α) [] [] where
  chain := (inv_create (ι := ι) (α := α) hne).chain
  tail_eq := rfl
  data := rfl
  live := by
    intro x
    show (Function.update (fun _ => none) dummy (some (⟨none, 0⟩ : Node α)) x).isSome
      ↔ x ∈ [dummy]
    by_cases hx : x = dummy
    · subst hx
      simp
    · simp [hx]
  below := by
    intro x hx
    rwa [List.mem_singleton.mp hx]
  size_eq := rfl
  ended := fun _ => rfl
  counts := by
    intro x
    show [dummy].count x = 0 + if x ∈ [dummy] then 1 else 0
    by_cases hx : x = dummy
    · subst hx
      simp
    · simp [hx, Ne.symm hx]
  fifo := .nil

/-- Different addresses of 64 bits that are not null are fewer than `2 ^ 64`. -/
theorem length_lt_of_nodup {xs : List ℕ} (hnodup : xs.Nodup) (hne : ∀ x ∈ xs, x ≠ 0)
    (hbelow : ∀ x ∈ xs, x < 2 ^ 64) : xs.length < 2 ^ 64 := by
  have hsubset : xs.toFinset ⊆ Finset.Ioo 0 (2 ^ 64) := by
    intro x hx
    have hmem := List.mem_toFinset.mp hx
    exact Finset.mem_Ioo.mpr ⟨Nat.pos_of_ne_zero (hne x hmem), hbelow x hmem⟩
  have hcard := Finset.card_le_card hsubset
  rw [List.toFinset_card_of_nodup hnodup, Nat.card_Ioo] at hcard
  omega

/-! ### A node that is linked -/

/-- The nodes after a push: the new one is linked behind the last one. -/
def linkedHeap (heap : ℕ → Option (Node α)) (tail : ℕ) (node : Node α) (newNode : ℕ) (value : α) :
    ℕ → Option (Node α) :=
  Function.update (Function.update heap newNode (some ⟨some value, 0⟩)) tail
    (some { node with next := newNode })

section Linked

variable {heap : ℕ → Option (Node α)} {tail newNode : ℕ} {node : Node α} (value : α)

theorem dataIn_linkedHeap (htail : heap tail = some node) (hne : tail ≠ newNode) (x : ℕ) :
    dataIn (linkedHeap heap tail node newNode value) x
      = if x = newNode then some value else dataIn heap x := by
  unfold dataIn linkedHeap
  by_cases hx : x = tail
  · rw [hx, Function.update_self, if_neg hne, htail]
    rfl
  · rw [Function.update_of_ne hx, Function.update_apply]
    split_ifs <;> rfl

theorem isSome_linkedHeap (htail : heap tail = some node) (x : ℕ) :
    (linkedHeap heap tail node newNode value x).isSome ↔ (heap x).isSome ∨ x = newNode := by
  unfold linkedHeap
  by_cases hx : x = tail
  · rw [hx, Function.update_self, htail]
    exact iff_of_true rfl (.inl rfl)
  · rw [Function.update_of_ne hx, Function.update_apply]
    by_cases hnew : x = newNode
    · rw [if_pos hnew]
      exact iff_of_true rfl (.inr hnew)
    · rw [if_neg hnew, or_iff_left hnew]

/-- The new node is the last one of the chain, and no other link changes. -/
theorem chain_linkedHeap {head : ℕ} {nodes : List ℕ}
    (hchain : Chain (nextIn heap) 0 head (nodes ++ [tail])) (hne : newNode ≠ 0)
    (hnot : newNode ∉ nodes ++ [tail]) :
    Chain (nextIn (linkedHeap heap tail node newNode value)) 0 head
      (nodes ++ [tail] ++ [newNode]) := by
  have hkept : Chain (nextIn (Function.update heap newNode (some ⟨some value, 0⟩))) 0 head
      (nodes ++ [tail]) := by
    apply hchain.congr
    intro x hx
    apply nextIn_update_of_ne
    rintro rfl
    exact hnot hx
  have hlast : nextIn (Function.update heap newNode (some ⟨some value, 0⟩)) newNode = 0 :=
    nextIn_of_eq_some (Function.update_self ..)
  unfold linkedHeap
  rw [nextIn_update_some]
  exact hkept.append hne hnot hlast

end Linked

/-! ### The calls -/

section Calls

variable {session : Session ι α} {nodes : List ℕ} {values : List α}

omit [DecidableEq ι] in
/-- The nodes that were made are those that were deleted and those of the queue. -/
theorem Holds.count_allocated (h : Holds session nodes values) (x : ℕ) :
    session.allocated.count x
      = session.deleted.count x + (session.queue.head :: nodes).count x := by
  rw [h.chain.nodup.count]
  exact h.counts x

omit [DecidableEq ι] in
/-- The last node of the queue. -/
theorem Holds.tail_node (h : Holds session nodes values) :
    ∃ node, session.queue.heap session.queue.tail = some node ∧ node.next = 0 ∧
      session.queue.head :: nodes
        = (session.queue.head :: nodes).dropLast ++ [session.queue.tail] := by
  have hsplit := List.dropLast_append_getLast (List.cons_ne_nil session.queue.head nodes)
  rw [h.tail_eq] at hsplit
  have hmem : session.queue.tail ∈ session.queue.head :: nodes := h.tail_eq ▸ List.getLast_mem _
  obtain ⟨node, hnode⟩ := Option.isSome_iff_exists.mp ((h.live _).mpr hmem)
  have hchain := h.chain
  rw [← hsplit] at hchain
  exact ⟨node, hnode, (nextIn_of_eq_some hnode).symm.trans hchain.next_eq_null, hsplit.symm⟩

/-- **`push`** ends, and appends its value. -/
theorem Holds.push (h : Holds session nodes values) (i : ι) {newNode : ℕ} (value : α)
    (hne : newNode ≠ 0) (hbelow : newNode < 2 ^ 64)
    (hfresh : session.queue.heap newNode = none) :
    ∃ t, session.call 6 (.push i newNode value) = some t ∧
      Holds t (nodes ++ [newNode]) (values ++ [value]) := by
  obtain ⟨node, htail, hlast, hsplit⟩ := h.tail_node
  set queue := session.queue with hqueue
  have hnot : newNode ∉ queue.head :: nodes := by
    intro hmem
    have hlive := (h.live newNode).mpr hmem
    rw [hfresh] at hlive
    cases hlive
  have htailNe : queue.tail ≠ newNode := by
    intro heq
    rw [heq, hfresh] at htail
    cases htail
  have hcall : session.call 6 (.push i newNode value) = some {
      queue := { queue with
        heap := linkedHeap queue.heap queue.tail node newNode value
        tail := newNode
        size := queue.size + 1 }.goto i .idle
      events := session.events ++ [.pushed value]
      allocated := session.allocated ++ [newNode]
      deleted := session.deleted ++ [] } := by
    set begun : LockFreeQueue ι α :=
      { queue with heap := Function.update queue.heap newNode (some ⟨some value, 0⟩) }
    have hstep : queue.step (.push i newNode value)
        = some (begun.goto i (.loadTail newNode 0)) :=
      if_pos ⟨h.ended i, hne, by rw [hfresh]; rfl⟩
    have hbegunTail : begun.heap begun.tail = some node :=
      (Function.update_of_ne htailNe _ _).trans htail
    rw [Session.call, hstep, Option.bind_some, finish_push hbegunTail hlast, Option.map_some]
    rfl
  refine ⟨_, hcall, ?_⟩
  set heap' := linkedHeap queue.heap queue.tail node newNode value
  have hchain : Chain (nextIn heap') 0 queue.head (queue.head :: (nodes ++ [newNode])) := by
    have hkept := h.chain
    rw [hsplit] at hkept hnot
    rw [← List.cons_append, hsplit]
    exact chain_linkedHeap value hkept hne hnot
  have hmem : ∀ x, x ∈ queue.head :: (nodes ++ [newNode])
      ↔ x ∈ queue.head :: nodes ∨ x = newNode := by
    intro x
    rw [← List.cons_append, List.mem_append, List.mem_singleton]
  exact {
    chain := hchain
    tail_eq := by simp
    data := by
      have hdata := dataIn_linkedHeap value htail htailNe
      have hold : ∀ x ∈ nodes, dataIn heap' x = dataIn queue.heap x := by
        intro x hx
        rw [hdata, if_neg]
        rintro rfl
        exact hnot (List.mem_cons_of_mem _ hx)
      show (nodes ++ [newNode]).map (dataIn heap') = (values ++ [value]).map some
      rw [List.map_append, List.map_append, List.map_congr_left hold, h.data, List.map_singleton,
        hdata, if_pos rfl, List.map_singleton]
    live := by
      intro x
      apply (isSome_linkedHeap value htail x).trans
      rw [h.live x]
      exact (hmem x).symm
    below := by
      intro x hx
      rcases (hmem x).mp hx with hx | rfl
      · exact h.below x hx
      · exact hbelow
    size_eq := by
      have hlength := congrArg List.length h.data
      rw [List.length_map, List.length_map] at hlength
      have hnodup := h.chain.nodup
      have hbound := length_lt_of_nodup hnodup (fun x hx => h.chain.ne_null hx) h.below
      rw [List.length_cons, hlength] at hbound
      show (queue.size + 1).toNat = (values ++ [value]).length
      rw [UInt64.toNat_add, h.size_eq, List.length_append, List.length_singleton, UInt64.toNat_one]
      exact Nat.mod_eq_of_lt hbound
    ended := ended_goto rfl h.ended
    counts := by
      intro x
      show (session.allocated ++ [newNode]).count x = (session.deleted ++ []).count x
        + if x ∈ queue.head :: (nodes ++ [newNode]) then 1 else 0
      rw [← hchain.nodup.count, List.append_nil, List.count_append, h.count_allocated,
        ← List.cons_append, List.count_append, Nat.add_assoc]
    fifo := .pushed value h.fifo }

omit [DecidableEq ι] in
/-- Between the calls the queue is at rest. -/
theorem Holds.quiet (h : Holds session nodes values) : Quiet session.queue nodes where
  chain := h.chain
  live := h.live
  values := by
    intro x hx
    have hmem : dataIn session.queue.heap x ∈ values.map some := h.data ▸ List.mem_map_of_mem hx
    obtain ⟨value, -, hvalue⟩ := List.mem_map.mp hmem
    rw [← hvalue]
    rfl
  ended := h.ended

/-- **`pop` of an empty queue** ends, and finds nothing. -/
theorem Holds.pop_nil (h : Holds session [] values) (i : ι) :
    values = [] ∧ ∃ t, session.call 6 (.pop i) = some t ∧ (t.queue.threads i).result = none ∧
      Holds t [] [] := by
  have hvalues : values = [] := (List.map_eq_nil_iff.mp h.data.symm)
  subst hvalues
  refine ⟨rfl, _, h.quiet.pop_nil i, by rw [threads_goto]; rfl, ?_⟩
  exact {
    chain := h.chain
    tail_eq := h.tail_eq
    data := rfl
    live := h.live
    below := h.below
    size_eq := h.size_eq
    ended := ended_goto rfl h.ended
    counts := by
      intro x
      rw [List.append_nil]
      exact h.counts x
    fifo := h.fifo.popped }

/-- **`pop`** ends, and takes the oldest value. -/
theorem Holds.pop_cons {x : ℕ} (h : Holds session (x :: nodes) values) (i : ι) :
    ∃ value rest, values = value :: rest ∧
      ∃ t, session.call 6 (.pop i) = some t ∧ (t.queue.threads i).result = some value ∧
        Holds t nodes rest := by
  obtain ⟨value, hvalue, hcall⟩ := h.quiet.pop_cons i
  have hdata := h.data
  rw [List.map_cons, hvalue] at hdata
  obtain ⟨_, rest, rfl, hfirst, hrest⟩ := List.map_eq_cons_iff.mp hdata.symm
  obtain rfl := (Option.some.inj hfirst).symm
  have ht := h.quiet.tail i (session.queue.size - 1) (some value)
  have hnodup := List.nodup_cons.mp h.chain.nodup
  refine ⟨value, rest, rfl, _, hcall, by rw [threads_goto]; rfl, ?_⟩
  exact {
    chain := ht.chain
    tail_eq := (List.getLast_cons_cons ..).symm.trans h.tail_eq
    data := by
      show nodes.map (dataIn (Function.update session.queue.heap session.queue.head none))
        = rest.map some
      rw [hrest]
      apply List.map_congr_left
      intro y hy
      have hother : y ≠ session.queue.head := by
        rintro rfl
        exact hnodup.1 (List.mem_cons_of_mem x hy)
      rw [dataIn, dataIn, Function.update_of_ne hother]
    live := ht.live
    below := fun y hy => h.below y (List.mem_cons_of_mem _ hy)
    size_eq := by
      have hsize := h.size_eq
      rw [List.length_cons] at hsize
      have hone : (1 : UInt64) ≤ session.queue.size := by
        rw [UInt64.le_iff_toNat_le, UInt64.toNat_one, hsize]
        omega
      show (session.queue.size - 1).toNat = rest.length
      rw [UInt64.toNat_sub_of_le _ _ hone, hsize, UInt64.toNat_one, Nat.add_sub_cancel]
    ended := ht.ended
    counts := by
      intro y
      show session.allocated.count y = (session.deleted ++ [session.queue.head]).count y
        + if y ∈ x :: nodes then 1 else 0
      rw [← hnodup.2.count, h.count_allocated, ← List.singleton_append, List.count_append,
        List.count_append, Nat.add_assoc]
    fifo := h.fifo.popped }

end Calls

/-! ### Sessions -/

/-- What a call that has begun comes to does not depend on the number of steps allowed. -/
theorem begun_unique {i : ι} {fuel fuel' : ℕ} {start : Option (LockFreeQueue ι α)}
    {f : LockFreeQueue ι α × List ℕ → Session ι α} {t t' : Session ι α}
    (h : (start.bind fun begun => (finish i fuel begun).map f) = some t)
    (h' : (start.bind fun begun => (finish i fuel' begun).map f) = some t') : t = t' := by
  obtain ⟨begun, hbegun, hfinish⟩ := Option.bind_eq_some_iff.mp h
  obtain ⟨begun', hbegun', hfinish'⟩ := Option.bind_eq_some_iff.mp h'
  obtain rfl := Option.some.inj (hbegun.symm.trans hbegun')
  obtain ⟨r, hr, rfl⟩ := Option.map_eq_some_iff.mp hfinish
  obtain ⟨r', hr', rfl⟩ := Option.map_eq_some_iff.mp hfinish'
  rw [finish_unique hr hr']

theorem call_unique {s t t' : Session ι α} {fuel fuel' : ℕ} {c : Call ι α}
    (h : s.call fuel c = some t) (h' : s.call fuel' c = some t') : t = t' := by
  cases c with
  | push i newNode value => exact begun_unique h h'
  | pop i => exact begun_unique h h'

/-- `pop` ends, with the oldest value if there is one. -/
theorem Holds.pop {session : Session ι α} {nodes : List ℕ} {values : List α}
    (h : Holds session nodes values) (i : ι) :
    ∃ t, session.call 6 (.pop i) = some t ∧ (t.queue.threads i).result = values.head? ∧
      Holds t nodes.tail values.tail := by
  cases nodes with
  | nil =>
    obtain ⟨rfl, t, hcall, hresult, ht⟩ := h.pop_nil i
    exact ⟨t, hcall, hresult, ht⟩
  | cons x nodes =>
    obtain ⟨value, rest, rfl, t, hcall, hresult, ht⟩ := h.pop_cons i
    exact ⟨t, hcall, hresult, ht⟩

/-- **One call** keeps the invariant. -/
theorem holds_call {s t : Session ι α} {fuel : ℕ} {c : Call ι α}
    (h : ∃ nodes values, Holds s nodes values) (hc : c.Addressable)
    (hcall : s.call fuel c = some t) : ∃ nodes values, Holds t nodes values := by
  obtain ⟨nodes, values, hs⟩ := h
  cases c with
  | push i newNode value =>
    obtain ⟨_, hbegun, _⟩ := Option.bind_eq_some_iff.mp hcall
    simp only [step] at hbegun
    split_ifs at hbegun with hcond
    obtain ⟨t', hcall', ht'⟩ :=
      hs.push i value hcond.2.1 hc (Option.isNone_iff_eq_none.mp hcond.2.2)
    obtain rfl := call_unique hcall hcall'
    exact ⟨_, _, ht'⟩
  | pop i =>
    obtain ⟨t', hcall', _, ht'⟩ := hs.pop i
    obtain rfl := call_unique hcall hcall'
    exact ⟨_, _, ht'⟩

/-- **The destructor** ends, and deletes every node that is left. -/
theorem Holds.destroy {s : Session ι α} {nodes : List ℕ} {values : List α}
    (h : Holds s nodes values) (i : ι) :
    ∃ t, s.destroy 6 i (nodes.length + 1) = some t ∧ (∀ x, t.queue.heap x = none) ∧
      ∀ x, t.allocated.count x = t.deleted.count x := by
  obtain ⟨t, hdestroy, hheap, hallocated, hdeleted⟩ := h.quiet.destroy i
  refine ⟨t, hdestroy, hheap, fun x => ?_⟩
  rw [hallocated, hdeleted, h.count_allocated, List.count_append]

/-! ### Histories -/

/-- A push. -/
def Event.isPush : Event α → Bool
  | .pushed _ => true
  | .popped _ => false

/-- A pop that found a value. -/
def Event.isTake : Event α → Bool
  | .pushed _ => false
  | .popped result => result.isSome

/-- **Pushes less pops.** -/
theorem Fifo.length_add_countP {events : List (Event α)} {values : List α}
    (h : Fifo events values) :
    values.length + events.countP Event.isTake = events.countP Event.isPush := by
  induction h with
  | nil => rfl
  | pushed value _ ih =>
    rw [List.length_append, List.countP_append, List.countP_append]
    simp only [List.length_singleton, List.countP_singleton, Event.isPush, Event.isTake]
    simp only [Bool.false_eq_true, if_true, if_false]
    omega
  | @popped events values _ ih =>
    rw [List.countP_append, List.countP_append]
    cases values with
    | nil => simpa [Event.isPush, Event.isTake] using ih
    | cons value values =>
      simp only [List.length_cons] at ih
      simp only [List.head?_cons, List.tail_cons, List.countP_singleton, Event.isPush, Event.isTake,
        Option.isSome_some, Bool.false_eq_true, if_true, if_false]
      omega

/-- **Used sequentially, the queue is an unbounded first in, first out queue**: in every session the
calls have done what those of such a queue do, and the size is the number of pushes less that of the
pops that found a value.  Every further call ends, whatever fresh address `new` returns, and so does
the destructor, after which no node exists and every address has been deleted as often as it has
been allocated.  A call cannot go on where it would read or delete a node that does not exist, so
that none does. -/
theorem sequential_fifo {dummy : ℕ} (hdummy : dummy ≠ 0) (hbelow : dummy < 2 ^ 64)
    {s : Session ι α}
    (h : Reaches (fun s (c : ℕ × Call ι α) => s.call c.1 c.2) (fun _ c => c.2.Addressable)
      (.create dummy) s) :
    (∃ values, Fifo s.events values ∧ s.queue.size.toNat = values.length) ∧
    s.queue.size.toNat + s.events.countP Event.isTake = s.events.countP Event.isPush ∧
    ∀ i,
      (∀ newNode value, newNode ≠ 0 → newNode < 2 ^ 64 → s.queue.heap newNode = none →
        ∃ t, s.call 6 (.push i newNode value) = some t) ∧
      (∃ t, s.call 6 (.pop i) = some t) ∧
      ∃ pops t, s.destroy 6 i pops = some t ∧ (∀ x, t.queue.heap x = none) ∧
        ∀ x, t.allocated.count x = t.deleted.count x := by
  have hkeep : ∀ (s : Session ι α) (c : ℕ × Call ι α) t, (∃ nodes values, Holds s nodes values) →
      c.2.Addressable → s.call c.1 c.2 = some t → ∃ nodes values, Holds t nodes values :=
    fun _ _ _ hs hc hcall => holds_call hs hc hcall
  obtain ⟨nodes, values, hs⟩ := h.invariant hkeep ⟨[], [], holds_create hdummy hbelow⟩
  refine ⟨⟨values, hs.fifo, hs.size_eq⟩, ?_, fun i => ⟨?_, ?_, ?_⟩⟩
  · rw [hs.size_eq, hs.fifo.length_add_countP]
  · intro newNode value hne hnew hfresh
    obtain ⟨t, hcall, _⟩ := hs.push i value hne hnew hfresh
    exact ⟨t, hcall⟩
  · obtain ⟨t, hcall, _⟩ := hs.pop i
    exact ⟨t, hcall⟩
  · exact ⟨_, hs.destroy i⟩

instance (c : Call ι α) : Decidable c.Addressable :=
  match c with
  | .push _ newNode _ => inferInstanceAs (Decidable (newNode < 2 ^ 64))
  | .pop _ => isTrue trivial

/-- Two values are pushed and one is taken. -/
def twoPushesOnePop : List (ℕ × Call (Fin 2) ℕ) :=
  [(6, .push firstThread 2 7), (6, .push secondThread 3 8), (6, .pop firstThread)]

theorem sequential_fifo_twoPushesOnePop :
    ∃ s : Session (Fin 2) ℕ,
      run (fun s (c : ℕ × Call (Fin 2) ℕ) => s.call c.1 c.2) (fun _ c => c.2.Addressable)
        (.create 1) twoPushesOnePop = some s ∧
      s.events = [.pushed 7, .pushed 8, .popped (some 7)] ∧
      ∃ values, Fifo s.events values ∧ s.queue.size.toNat = values.length := by
  obtain ⟨s, hs, hevents⟩ : ∃ s : Session (Fin 2) ℕ,
      run (fun s (c : ℕ × Call (Fin 2) ℕ) => s.call c.1 c.2) (fun _ c => c.2.Addressable)
        (.create 1) twoPushesOnePop = some s ∧
      s.events = [.pushed 7, .pushed 8, .popped (some 7)] := ⟨_, rfl, rfl⟩
  exact ⟨s, hs, hevents, (sequential_fifo Nat.one_ne_zero (by decide) (reaches_of_run hs)).1⟩

end NetSentry.LockFreeQueue
