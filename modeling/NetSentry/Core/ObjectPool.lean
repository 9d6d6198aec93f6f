import NetSentry.Core.MemoryPool

/-!
# `ObjectPool`

The pool of objects of `core/memory/memory_pool.hpp`, for a type `T` of `sizeT` bytes: `allocate`
takes a block of a `MemoryPool` and constructs an object in it, `deallocate` destroys the object and
gives its block back.  A call says what the constructor or the destructor of `T` leaves in the bytes
of the object, and whether it throws.

`World` is the pool with its clients.  They may also have objects that other code has constructed
outside of the pool.
-/

namespace NetSentry.ObjectPool

/-- What a call throws: what `pool_` throws, or what the constructor or the destructor of `T`
does. -/
inductive Exception
  | pool (e : MemoryPool.Exception)
  | object
deriving DecidableEq

/-- The pool, its clients and their objects. -/
structure World (sizeT blocksPerChunk : ℕ) where
  /-- `pool_`. -/
  pool : MemoryPool sizeT blocksPerChunk
  /-- The blocks of the pool that were not given back to it. -/
  held : List ℕ
  /-- Where an object of type `T` is alive. -/
  alive : List ℕ

variable {sizeT blocksPerChunk : ℕ}

/-- There is no object yet. -/
def World.initial (memory : ByteMemory) : World sizeT blocksPerChunk where
  pool := .create memory
  held := []
  alive := []

/-- The bytes of the object at `p` are replaced. -/
def overwrite (sizeT : ℕ) (memory : ByteMemory) (p : ℕ) (written : ByteMemory) : ByteMemory :=
  fun a => if p ≤ a ∧ a < p + sizeT then written a else memory a

/-- `new(p) T(…)`.  If the constructor throws, there is no object. -/
def World.construct (w : World sizeT blocksPerChunk) (p : ℕ) (written : ByteMemory)
    (throws : Bool) : Except Exception ℕ × World sizeT blocksPerChunk :=
  let w := { w with pool := { w.pool with memory := overwrite sizeT w.pool.memory p written } }
  if throws then (.error .object, w) else (.ok p, { w with alive := p :: w.alive })

/-- `p->~T()`.  The lifetime of the object ends as the destructor starts. -/
def World.destroy (w : World sizeT blocksPerChunk) (p : ℕ) (written : ByteMemory) :
    World sizeT blocksPerChunk :=
  { w with
    pool := { w.pool with memory := overwrite sizeT w.pool.memory p written }
    alive := w.alive.erase p }

/-- `allocate`, given what `aligned_alloc` returns if it is called. -/
def World.allocate (w : World sizeT blocksPerChunk) (newChunk : ℕ) (written : ByteMemory)
    (throws : Bool) : Except Exception ℕ × World sizeT blocksPerChunk :=
  match w.pool.allocate newChunk with
  | (.error e, pool) => (.error (.pool e), { w with pool := pool })
  | (.ok memory, pool) =>
    ({ w with pool := pool, held := memory :: w.held } : World sizeT blocksPerChunk).construct
      memory written throws

/-- `deallocate`. -/
def World.deallocate (w : World sizeT blocksPerChunk) (u : ℕ → ℕ → ℕ) (object : ℕ)
    (written : ByteMemory) (throws : Bool) : Except Exception Unit × World sizeT blocksPerChunk :=
  if object = 0 then (.ok (), w)
  else
    let w := w.destroy object written
    if throws then (.error .object, w)
    else
      match w.pool.deallocate u object with
      | (.error e, pool) => (.error (.pool e), { w with pool := pool })
      | (.ok (), pool) => (.ok (), { w with pool := pool, held := w.held.erase object })

/-! ### Clients -/

/-- An object and a chunk do not overlap. -/
def Outside (sizeT blocksPerChunk chunk object : ℕ) : Prop :=
  object + sizeT ≤ chunk ∨ MemoryPool.blockAt sizeT chunk blocksPerChunk ≤ object

instance (chunk object : ℕ) : Decidable (Outside sizeT blocksPerChunk chunk object) :=
  inferInstanceAs (Decidable (_ ∨ _))

/-- `aligned_alloc` returns null, or memory that nothing else uses. -/
def World.AlignedAlloc (w : World sizeT blocksPerChunk) (newChunk : ℕ) : Prop :=
  w.pool.AlignedAlloc newChunk ∧
    (newChunk = 0 ∨ ∀ p ∈ w.alive, p ∉ w.held → Outside sizeT blocksPerChunk newChunk p)

instance (w : World sizeT blocksPerChunk) (newChunk : ℕ) : Decidable (w.AlignedAlloc newChunk) :=
  inferInstanceAs (Decidable (_ ∧ (_ ∨ ∀ _ ∈ w.alive, _)))

/-- There is room for an object outside of the pool. -/
def World.Elsewhere (w : World sizeT blocksPerChunk) (object : ℕ) : Prop :=
  object ≠ 0 ∧ object ∉ w.alive ∧ ∀ chunk ∈ w.pool.chunks, Outside sizeT blocksPerChunk chunk object

instance (w : World sizeT blocksPerChunk) (object : ℕ) : Decidable (w.Elsewhere object) :=
  inferInstanceAs (Decidable (_ ∧ _ ∧ ∀ _ ∈ w.pool.chunks, _))

/-- A byte of a block that was handed out, or of no chunk of the pool. -/
def World.Writable (w : World sizeT blocksPerChunk) (address : ℕ) : Prop :=
  (∃ block ∈ w.held, block ≤ address ∧ address < block + sizeofBlock sizeT) ∨
    ∀ chunk ∈ w.pool.chunks, ¬ MemoryPool.InChunk sizeT blocksPerChunk chunk address

instance (w : World sizeT blocksPerChunk) (address : ℕ) : Decidable (w.Writable address) :=
  inferInstanceAs (Decidable ((∃ _ ∈ w.held, _) ∨ ∀ _ ∈ w.pool.chunks, _))

/-- A call of a client, with what the constructor or the destructor of `T` leaves in the bytes of
the object and whether it throws. -/
inductive Call
  /-- With what `aligned_alloc` returns if it is called. -/
  | allocate (newChunk : ℕ) (written : ByteMemory) (throws : Bool)
  | deallocate (object : ℕ) (written : ByteMemory) (throws : Bool)

/-- A client may make a call: it gives back what is alive, or null. -/
def World.Admits (w : World sizeT blocksPerChunk) : Call → Prop
  | .allocate newChunk _ _ => w.AlignedAlloc newChunk
  | .deallocate object _ _ => object = 0 ∨ object ∈ w.alive

instance (w : World sizeT blocksPerChunk) : ∀ call, Decidable (w.Admits call)
  | .allocate newChunk _ _ => inferInstanceAs (Decidable (w.AlignedAlloc newChunk))
  | .deallocate _ _ _ => inferInstanceAs (Decidable (_ ∨ _ ∈ w.alive))

/-- The world after a call. -/
def World.call (w : World sizeT blocksPerChunk) (u : ℕ → ℕ → ℕ) : Call → World sizeT blocksPerChunk
  | .allocate newChunk written throws => (w.allocate newChunk written throws).2
  | .deallocate object written throws => (w.deallocate u object written throws).2

/-- A call, an object that other code constructs outside of the pool, or one byte that a client or
an object writes. -/
inductive Action
  | call (call : Call)
  | construct (object : ℕ)
  | write (address : ℕ) (byte : UInt8)

/-- The world after a step, where the step can be taken. -/
def step (u : ℕ → ℕ → ℕ) (w : World sizeT blocksPerChunk) :
    Action → Option (World sizeT blocksPerChunk)
  | .call call => if w.Admits call then some (w.call u call) else none
  | .construct object =>
    if w.Elsewhere object then some { w with alive := object :: w.alive } else none
  | .write address byte =>
    if w.Writable address then
      some { w with
        pool := { w.pool with memory := Function.update w.pool.memory address byte } }
    else none

end NetSentry.ObjectPool
