import Mathlib.Data.List.Basic
import Mathlib.Logic.Function.Basic

/-!
# `LockFreeQueue`

The queue of `core/data/lock_free_queue.hpp`, with any number of threads.  A step is one atomic
load, one compare-exchange, one read of a node's data, one `delete` or one change of the counter,
and all steps are sequentially consistent.  Nodes are addresses, `0` is the null pointer; `new` may
return any address at which there is no node, also one of a node that was deleted.  An operation
cannot go on where it would read or delete a node that does not exist.
-/

namespace NetSentry

namespace LockFreeQueue

/-- `Node`. -/
structure Node (α : Type*) where
  data : Option α
  next : ℕ

/-- How far a call is, with its local variables. -/
inductive Operation (α : Type*)
  | idle
  /-- `push_node`: `old_tail = tail_.load()`. -/
  | loadTail (newNode nullNode : ℕ)
  /-- `next = old_tail->next.load()`. -/
  | loadNext (newNode nullNode oldTail : ℕ)
  /-- `if (old_tail == tail_.load())`. -/
  | recheckTail (newNode nullNode oldTail next : ℕ)
  /-- `old_tail->next.compare_exchange_weak(null_node, new_node)`. -/
  | linkNode (newNode nullNode oldTail : ℕ)
  /-- `tail_.compare_exchange_weak(old_tail, next)`. -/
  | helpTail (newNode nullNode oldTail next : ℕ)
  /-- `tail_.compare_exchange_weak(old_tail, new_node)`. -/
  | swingTail (newNode oldTail : ℕ)
  /-- `size_.fetch_add(1)`. -/
  | addSize
  /-- `pop`: `old_head = head_.load()`. -/
  | loadHead
  /-- `next_node = old_head->next.load()`. -/
  | loadHeadNext (oldHead : ℕ)
  /-- `head_.compare_exchange_weak(old_head, next_node)`. -/
  | moveHead (oldHead nextNode : ℕ)
  /-- `result = next_node->data`. -/
  | readData (oldHead nextNode : ℕ)
  /-- `delete old_head`. -/
  | deleteHead (oldHead : ℕ) (result : Option α)
  /-- `size_.fetch_sub(1)`, and `return *result`. -/
  | subSize (result : Option α)
  /-- `pop` has returned. -/
  | returned (result : Option α)

end LockFreeQueue

open LockFreeQueue in
/-- `LockFreeQueue<T>`, the memory of its nodes, and the calls that the threads are in. -/
structure LockFreeQueue (ι α : Type*) where
  heap : ℕ → Option (Node α)
  head : ℕ
  tail : ℕ
  size : UInt64
  threads : ι → Operation α

namespace LockFreeQueue

variable {ι α : Type*} [DecidableEq ι]

/-- The constructor, with the address of the dummy node. -/
def create (dummy : ℕ) : LockFreeQueue ι α where
  heap := Function.update (fun _ => none) dummy (some ⟨none, 0⟩)
  head := dummy
  tail := dummy
  size := 0
  threads := fun _ => .idle

/-- The `next` of a node; null where there is no node. -/
def nextIn (heap : ℕ → Option (Node α)) (address : ℕ) : ℕ := (heap address).elim 0 (·.next)

/-- `empty`; the field `size` is what the method of this name loads. -/
def empty (s : LockFreeQueue ι α) : Bool := s.size = 0

/-- A thread goes on. -/
def goto (s : LockFreeQueue ι α) (i : ι) (op : Operation α) : LockFreeQueue ι α :=
  { s with threads := Function.update s.threads i op }

/-- The next step of the call that thread `i` is in.  A compare-exchange may fail spuriously; where
it fails it loads what it found into the variable that it compared with. -/
def advance (s : LockFreeQueue ι α) (i : ι) (spurious : Bool) :
    Operation α → Option (LockFreeQueue ι α)
  | .idle | .returned _ => none
  | .loadTail newNode nullNode => some (s.goto i (.loadNext newNode nullNode s.tail))
  | .loadNext newNode nullNode oldTail =>
    (s.heap oldTail).map fun node => s.goto i (.recheckTail newNode nullNode oldTail node.next)
  | .recheckTail newNode nullNode oldTail next =>
    if oldTail = s.tail then
      if next = 0 then some (s.goto i (.linkNode newNode nullNode oldTail))
      else some (s.goto i (.helpTail newNode nullNode oldTail next))
    else some (s.goto i (.loadTail newNode nullNode))
  | .linkNode newNode nullNode oldTail =>
    (s.heap oldTail).map fun node =>
      if node.next = nullNode ∧ ¬ spurious then
        { s with
          heap := Function.update s.heap oldTail (some { node with next := newNode }) }.goto i
          (.swingTail newNode oldTail)
      else s.goto i (.loadTail newNode node.next)
  | .helpTail newNode nullNode oldTail next =>
    if s.tail = oldTail ∧ ¬ spurious then
      some ({ s with tail := next }.goto i (.loadTail newNode nullNode))
    else some (s.goto i (.loadTail newNode nullNode))
  | .swingTail newNode oldTail =>
    if s.tail = oldTail ∧ ¬ spurious then some ({ s with tail := newNode }.goto i .addSize)
    else some (s.goto i .addSize)
  | .addSize => some ({ s with size := s.size + 1 }.goto i .idle)
  | .loadHead => some (s.goto i (.loadHeadNext s.head))
  | .loadHeadNext oldHead =>
    (s.heap oldHead).map fun node =>
      if node.next = 0 then s.goto i (.returned none)
      else s.goto i (.moveHead oldHead node.next)
  | .moveHead oldHead nextNode =>
    if s.head = oldHead ∧ ¬ spurious then
      some ({ s with head := nextNode }.goto i (.readData oldHead nextNode))
    else some (s.goto i (.loadHeadNext s.head))
  | .readData oldHead nextNode =>
    (s.heap nextNode).map fun node => s.goto i (.deleteHead oldHead node.data)
  | .deleteHead oldHead result =>
    (s.heap oldHead).map fun _ =>
      { s with heap := Function.update s.heap oldHead none }.goto i (.subSize result)
  | .subSize (some value) =>
    some ({ s with size := s.size - 1 }.goto i (.returned (some value)))
  -- `*result` of a pointer that holds nothing
  | .subSize none => none

/-- No call is in progress. -/
def Operation.ended : Operation α → Bool
  | .idle | .returned _ => true
  | _ => false

/-- What a thread does. -/
inductive Action (ι α : Type*)
  /-- A call of `push` begins: `new` returns the address of the node. -/
  | push (i : ι) (newNode : ℕ) (value : α)
  /-- A call of `pop` begins. -/
  | pop (i : ι)
  | advance (i : ι) (spurious : Bool)

/-- The queue after an action, where it can be taken. -/
def step (s : LockFreeQueue ι α) : Action ι α → Option (LockFreeQueue ι α)
  | .push i newNode value =>
    if (s.threads i).ended ∧ newNode ≠ 0 ∧ (s.heap newNode).isNone then
      some ({ s with heap := Function.update s.heap newNode (some ⟨some value, 0⟩) }.goto i
        (.loadTail newNode 0))
    else none
  | .pop i => if (s.threads i).ended then some (s.goto i .loadHead) else none
  | .advance i spurious => s.advance i spurious (s.threads i)

/-- The node that the next step of a call reads, writes or deletes. -/
def Operation.accessed : Operation α → Option ℕ
  | .loadNext _ _ oldTail => some oldTail
  | .linkNode _ _ oldTail => some oldTail
  | .loadHeadNext oldHead => some oldHead
  | .readData _ nextNode => some nextNode
  | .deleteHead oldHead _ => some oldHead
  | _ => none

end LockFreeQueue

end NetSentry
