import NetSentry.Core.MemoryPool

/-!
# `PoolAllocator`

The allocator of `core/memory/memory_pool.hpp` with the containers that use it, for a type of
`sizeT` bytes.  All allocators for one type share one `ObjectPool`.  A container asks for a block of
`n` slots, constructs objects in slots where it has none, destroys what it has constructed, and
gives a block back when it has no object in it any more.  `objects` counts the objects of the type
that really are alive at each address, whoever constructed them.
-/

namespace NetSentry.PoolAllocator

/-- A block that a container holds: what `allocate(n)` returned, and the slots in which the
container has an object. -/
structure Block where
  ptr : ℕ
  n : ℕ
  constructed : List ℕ
deriving DecidableEq

/-- The address of a slot. -/
def Block.slot (sizeT : ℕ) (b : Block) (i : ℕ) : ℕ := b.ptr + i * sizeT

/-- The argument of `operator new`. -/
def requested (sizeT n : ℕ) : ℕ := n * sizeT % 2 ^ 64

/-- How many bytes a block takes, at least one. -/
def Block.extent (sizeT : ℕ) (b : Block) : ℕ := max 1 (requested sizeT b.n)

/-- The pool, the containers and the objects. -/
structure World (sizeT : ℕ) where
  /-- `getPool()`. -/
  pool : MemoryPool sizeT 128
  /-- The blocks of the pool that were not given back to it. -/
  held : List ℕ
  blocks : List Block
  objects : ℕ → ℕ
  /-- A constructor has run on a slot that held an object. -/
  constructedOver : Bool
  /-- A destructor has run on a slot that held none. -/
  destroyedNone : Bool

variable {sizeT : ℕ}

/-- There is no container yet. -/
def World.initial (memory : ByteMemory) : World sizeT where
  pool := .create memory
  held := []
  blocks := []
  objects := fun _ => 0
  constructedOver := false
  destroyedNone := false

/-- A constructor of the type runs at an address, and may throw: `PoolAllocator::construct`. -/
def World.construct (w : World sizeT) (p : ℕ) (throws : Bool) : World sizeT :=
  { w with
    constructedOver := w.constructedOver || decide (w.objects p ≠ 0)
    objects := if throws then w.objects else Function.update w.objects p (w.objects p + 1) }

/-- The destructor of the type runs at an address: `PoolAllocator::destroy`. -/
def World.destroy (w : World sizeT) (p : ℕ) : World sizeT :=
  { w with
    destroyedNone := w.destroyedNone || decide (w.objects p = 0)
    objects := Function.update w.objects p (w.objects p - 1) }

/-- `ObjectPool::allocate`, given what `aligned_alloc` returns if it is called, and whether the
constructor throws.  Where it does, nobody gives the memory back. -/
def World.poolAllocate (w : World sizeT) (newChunk : ℕ) (throws : Bool) :
    Option ℕ × World sizeT :=
  match w.pool.allocate newChunk with
  | (.error _, pool) => (none, { w with pool := pool })
  | (.ok memory, pool) =>
    (if throws then none else some memory,
      ({ w with pool := pool, held := memory :: w.held } : World sizeT).construct memory throws)

/-- `ObjectPool::deallocate`. -/
def World.poolDeallocate (w : World sizeT) (u : ℕ → ℕ → ℕ) (object : ℕ) : World sizeT :=
  if object = 0 then w
  else
    let w := w.destroy object
    match w.pool.deallocate u object with
    | (.error _, pool) => { w with pool := pool }
    | (.ok (), pool) => { w with pool := pool, held := w.held.erase object }

/-- `PoolAllocator::allocate`, given what `aligned_alloc` or `operator new` returns if it is called,
where null stands for `std::bad_alloc`. -/
def World.allocate (w : World sizeT) (n memory : ℕ) (throws : Bool) : Option ℕ × World sizeT :=
  if n = 1 then w.poolAllocate memory throws
  else (if memory = 0 then none else some memory, w)

/-- `PoolAllocator::deallocate`. -/
def World.deallocate (w : World sizeT) (u : ℕ → ℕ → ℕ) (p n : ℕ) : World sizeT :=
  if n = 1 then w.poolDeallocate u p else w

/-! ### Containers -/

/-- Two blocks do not overlap. -/
def Apart (sizeT : ℕ) (b c : Block) : Prop :=
  b.ptr + b.extent sizeT ≤ c.ptr ∨ c.ptr + c.extent sizeT ≤ b.ptr

instance (b c : Block) : Decidable (Apart sizeT b c) := inferInstanceAs (Decidable (_ ∨ _))

/-- A block and a chunk of the pool do not overlap. -/
def Outside (sizeT chunk : ℕ) (b : Block) : Prop :=
  b.ptr + b.extent sizeT ≤ chunk ∨ MemoryPool.blockAt sizeT chunk 128 ≤ b.ptr

instance (chunk : ℕ) (b : Block) : Decidable (Outside sizeT chunk b) :=
  inferInstanceAs (Decidable (_ ∨ _))

/-- `aligned_alloc` returns null, or memory that nothing else uses. -/
def World.AlignedAlloc (w : World sizeT) (newChunk : ℕ) : Prop :=
  w.pool.AlignedAlloc newChunk ∧
    (newChunk = 0 ∨ ∀ b ∈ w.blocks, b.n ≠ 1 → Outside sizeT newChunk b)

instance (w : World sizeT) (newChunk : ℕ) : Decidable (w.AlignedAlloc newChunk) :=
  inferInstanceAs (Decidable (_ ∧ (_ ∨ ∀ _ ∈ w.blocks, _)))

/-- `operator new` throws, for which the null pointer stands, or returns memory that nothing else
uses. -/
def World.OperatorNew (w : World sizeT) (b : Block) : Prop :=
  b.ptr = 0 ∨ (b.ptr + b.extent sizeT ≤ 2 ^ 64 ∧ (∀ c ∈ w.blocks, Apart sizeT b c) ∧
    ∀ chunk ∈ w.pool.chunks, Outside sizeT chunk b)

instance (w : World sizeT) (b : Block) : Decidable (w.OperatorNew b) :=
  inferInstanceAs (Decidable (_ ∨ _ ∧ (∀ _ ∈ w.blocks, _) ∧ ∀ _ ∈ w.pool.chunks, _))

/-- The memory that a call of `allocate` gets where it asks for some. -/
def World.NewMemory (w : World sizeT) (n memory : ℕ) : Prop :=
  if n = 1 then w.AlignedAlloc memory else w.OperatorNew ⟨memory, n, []⟩

instance (w : World sizeT) (n memory : ℕ) : Decidable (w.NewMemory n memory) :=
  inferInstanceAs
    (Decidable (if n = 1 then w.AlignedAlloc memory else w.OperatorNew ⟨memory, n, []⟩))

/-- A call of a container, or one byte that it or an object writes. -/
inductive Action
  /-- With what `aligned_alloc` or `operator new` returns if it is called, and whether the
  constructor that `ObjectPool::allocate` calls throws. -/
  | allocate (n memory : ℕ) (throws : Bool)
  | construct (b : Block) (i : ℕ) (throws : Bool)
  | destroy (b : Block) (i : ℕ)
  | deallocate (b : Block)
  | write (address : ℕ) (byte : UInt8)

/-- The container's record of a block changes. -/
def World.setConstructed (w : World sizeT) (b : Block) (constructed : List ℕ) : World sizeT :=
  { w with blocks := { b with constructed := constructed } :: w.blocks.erase b }

/-- A byte that belongs to a block of the pool that was handed out, or to no chunk of the pool. -/
def World.Writable (w : World sizeT) (address : ℕ) : Prop :=
  (∃ block ∈ w.held, block ≤ address ∧ address < block + sizeofBlock sizeT) ∨
    ∀ chunk ∈ w.pool.chunks, ¬ MemoryPool.InChunk sizeT 128 chunk address

instance (w : World sizeT) (address : ℕ) : Decidable (w.Writable address) :=
  inferInstanceAs (Decidable ((∃ _ ∈ w.held, _) ∨ ∀ _ ∈ w.pool.chunks, _))

/-- The world after a step, where the step can be taken.  A container does not use a block any more
once it has called `deallocate` for it, even if that throws. -/
def step (u : ℕ → ℕ → ℕ) (w : World sizeT) : Action → Option (World sizeT)
  | .allocate n memory throws =>
    if w.NewMemory n memory then
      match w.allocate n memory throws with
      | (none, w) => some w
      | (some ptr, w) => some { w with blocks := ⟨ptr, n, []⟩ :: w.blocks }
    else none
  | .construct b i throws =>
    if b ∈ w.blocks ∧ i < b.n ∧ i ∉ b.constructed then
      let w := w.construct (b.slot sizeT i) throws
      some (if throws then w else w.setConstructed b (i :: b.constructed))
    else none
  | .destroy b i =>
    if b ∈ w.blocks ∧ i ∈ b.constructed then
      some ((w.destroy (b.slot sizeT i)).setConstructed b (b.constructed.erase i))
    else none
  | .deallocate b =>
    if b ∈ w.blocks ∧ b.constructed = [] then
      let w := w.deallocate u b.ptr b.n
      some { w with blocks := w.blocks.erase b }
    else none
  | .write address byte =>
    if w.Writable address then
      some { w with
        pool := { w.pool with memory := Function.update w.pool.memory address byte } }
    else none

end NetSentry.PoolAllocator
