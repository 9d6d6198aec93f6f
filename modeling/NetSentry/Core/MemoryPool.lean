import NetSentry.Lib.ByteMemory

/-!
# `MemoryPool`

The block pool of `core/memory/memory_pool.hpp`: `allocate` takes the first block of a free list
that is threaded through the free blocks, `deallocate` puts a block back, `allocateChunk` gets the
memory for `BlocksPerChunk` more.  Pointers are addresses, `0` is the null pointer.  Every public
operation holds the pool's mutex throughout, so that a run is a list of steps.

`System` is the pool with its clients: they hold the blocks they were given, write to them and free
them.
-/

namespace NetSentry

/-- `sizeof(Block)`: a union of a pointer and `BlockSize` bytes, aligned as the pointer. -/
def sizeofBlock (blockSize : ℕ) : ℕ := (max 8 blockSize + 7) / 8 * 8

/-- `alignof(Block)`, which is that of a pointer. -/
def alignofBlock : ℕ := 8

/-- The alignment that `allocateChunk` passes to `aligned_alloc`. -/
def chunkAlignment : ℕ := max alignofBlock 16

/-- The size that `allocateChunk` passes to `aligned_alloc`. -/
def allocSize (blockSize blocksPerChunk : ℕ) : ℕ := sizeofBlock blockSize * blocksPerChunk % 2 ^ 64

/-- `MemoryPool<BlockSize, BlocksPerChunk>`, and the memory. -/
structure MemoryPool (blockSize blocksPerChunk : ℕ) where
  freeBlocks : ℕ
  chunks : List ℕ
  memory : ByteMemory

namespace MemoryPool

variable {blockSize blocksPerChunk : ℕ}

/-- What an operation throws. -/
inductive Exception
  | badAlloc
  | invalidArgument
deriving DecidableEq

/-- The constructor. -/
def create (memory : ByteMemory) : MemoryPool blockSize blocksPerChunk where
  freeBlocks := 0
  chunks := []
  memory := memory

/-- `block->next`. -/
def next (memory : ByteMemory) (block : ℕ) : ℕ := memory.load 8 block

/-- `block->next = value`. -/
def setNext (memory : ByteMemory) (block value : ℕ) : ByteMemory := memory.store 8 block value

/-- `&chunk[i]`. -/
def blockAt (blockSize chunk i : ℕ) : ℕ := chunk + i * sizeofBlock blockSize

/-- The loop of `allocateChunk` with the assignment after it. -/
def linkBlocks (blockSize blocksPerChunk newChunk : ℕ) (memory : ByteMemory) : ByteMemory :=
  let memory := (List.range (blocksPerChunk - 1)).foldl (fun memory i =>
    setNext memory (blockAt blockSize newChunk i) (blockAt blockSize newChunk (i + 1))) memory
  setNext memory (blockAt blockSize newChunk (blocksPerChunk - 1)) 0

/-- `allocateChunk`, given what `aligned_alloc` returns. -/
def allocateChunk (s : MemoryPool blockSize blocksPerChunk) (newChunk : ℕ) :
    Except Exception Unit × MemoryPool blockSize blocksPerChunk :=
  if newChunk = 0 then (.error .badAlloc, s)
  else
    (.ok (), {
      chunks := s.chunks ++ [newChunk]
      memory := linkBlocks blockSize blocksPerChunk newChunk s.memory
      freeBlocks := newChunk })

/-- The second half of `allocate`. -/
def popBlock (s : MemoryPool blockSize blocksPerChunk) :
    Except Exception ℕ × MemoryPool blockSize blocksPerChunk :=
  let block := s.freeBlocks
  (.ok block, { s with freeBlocks := next s.memory s.freeBlocks })

/-- `allocate`, given what `aligned_alloc` returns if it is called. -/
def allocate (s : MemoryPool blockSize blocksPerChunk) (newChunk : ℕ) :
    Except Exception ℕ × MemoryPool blockSize blocksPerChunk :=
  if s.freeBlocks = 0 then
    match s.allocateChunk newChunk with
    | (.error e, s) => (.error e, s)
    | (.ok (), s) => s.popBlock
  else s.popBlock

/-- `block - chunk`: how many blocks there are between the two, which is only defined for a whole
number of blocks and has some value `u` otherwise. -/
def blockDiff (blockSize : ℕ) (u : ℕ → ℕ → ℕ) (block chunk : ℕ) : ℕ :=
  if sizeofBlock blockSize ∣ block - chunk then (block - chunk) / sizeofBlock blockSize
  else u block chunk

/-- The loop of `isAddressInPool`. -/
def isAddressIn (blockSize blocksPerChunk : ℕ) (u : ℕ → ℕ → ℕ) (block : ℕ) : List ℕ → Bool
  | [] => false
  | chunk :: chunks =>
    if chunk ≤ block ∧ block < blockAt blockSize chunk blocksPerChunk then
      blockDiff blockSize u block chunk % sizeofBlock blockSize = 0
    else isAddressIn blockSize blocksPerChunk u block chunks

/-- `isAddressInPool`. -/
def isAddressInPool (s : MemoryPool blockSize blocksPerChunk) (u : ℕ → ℕ → ℕ) (block : ℕ) : Bool :=
  isAddressIn blockSize blocksPerChunk u block s.chunks

/-- `deallocate`. -/
def deallocate (s : MemoryPool blockSize blocksPerChunk) (u : ℕ → ℕ → ℕ) (ptr : ℕ) :
    Except Exception Unit × MemoryPool blockSize blocksPerChunk :=
  if ptr = 0 then (.ok (), s)
  else if s.isAddressInPool u ptr then
    (.ok (), { s with memory := setNext s.memory ptr s.freeBlocks, freeBlocks := ptr })
  else (.error .invalidArgument, s)

/-! ### Clients -/

/-- The blocks of a chunk. -/
def chunkBlocks (blockSize blocksPerChunk chunk : ℕ) : List ℕ :=
  (List.range blocksPerChunk).map (blockAt blockSize chunk)

/-- The blocks of all chunks. -/
def blocks (blockSize blocksPerChunk : ℕ) (chunks : List ℕ) : List ℕ :=
  chunks.flatMap (chunkBlocks blockSize blocksPerChunk)

/-- An address is in a chunk. -/
def InChunk (blockSize blocksPerChunk chunk address : ℕ) : Prop :=
  chunk ≤ address ∧ address < blockAt blockSize chunk blocksPerChunk

instance (chunk address : ℕ) : Decidable (InChunk blockSize blocksPerChunk chunk address) :=
  inferInstanceAs (Decidable (_ ∧ _))

/-- Two chunks do not overlap. -/
def Apart (blockSize blocksPerChunk c d : ℕ) : Prop :=
  blockAt blockSize c blocksPerChunk ≤ d ∨ blockAt blockSize d blocksPerChunk ≤ c

instance (c d : ℕ) : Decidable (Apart blockSize blocksPerChunk c d) :=
  inferInstanceAs (Decidable (_ ∨ _))

/-- `aligned_alloc` returns null, or memory of the size that it is asked for, apart from the earlier
chunks.  It returns null where the size has wrapped: no memory has room for such a chunk. -/
def AlignedAlloc (s : MemoryPool blockSize blocksPerChunk) (newChunk : ℕ) : Prop :=
  newChunk = 0 ∨ (allocSize blockSize blocksPerChunk = sizeofBlock blockSize * blocksPerChunk ∧
    newChunk + allocSize blockSize blocksPerChunk < 2 ^ 64 ∧
    ∀ chunk ∈ s.chunks, Apart blockSize blocksPerChunk chunk newChunk)

instance (s : MemoryPool blockSize blocksPerChunk) (newChunk : ℕ) :
    Decidable (s.AlignedAlloc newChunk) :=
  inferInstanceAs (Decidable (_ ∨ _ ∧ _ ∧ ∀ _ ∈ s.chunks, _))

/-- The pool and its clients. -/
structure System (blockSize blocksPerChunk : ℕ) where
  pool : MemoryPool blockSize blocksPerChunk
  /-- The blocks that clients hold. -/
  held : List ℕ
  /-- The most blocks that they held at one time. -/
  peak : ℕ

/-- The clients before the first allocation. -/
def System.create (memory : ByteMemory) : System blockSize blocksPerChunk where
  pool := .create memory
  held := []
  peak := 0

/-- A client may write to the blocks it holds, and to memory that is not the pool's. -/
def System.Writable (s : System blockSize blocksPerChunk) (address : ℕ) : Prop :=
  (∃ block ∈ s.held, block ≤ address ∧ address < block + sizeofBlock blockSize) ∨
    ∀ chunk ∈ s.pool.chunks, ¬ InChunk blockSize blocksPerChunk chunk address

instance (s : System blockSize blocksPerChunk) (address : ℕ) : Decidable (s.Writable address) :=
  inferInstanceAs (Decidable ((∃ _ ∈ s.held, _) ∨ ∀ _ ∈ s.pool.chunks, _))

/-- A call of a client, or one byte that it writes. -/
inductive Action
  /-- With what `aligned_alloc` returns if it is called. -/
  | allocate (newChunk : ℕ)
  | deallocate (ptr : ℕ)
  | write (address : ℕ) (byte : UInt8)

/-- The system after a step, where the step can be taken: clients free what they hold, or null, and
keep what they could not free. -/
def step (u : ℕ → ℕ → ℕ) (s : System blockSize blocksPerChunk) :
    Action → Option (System blockSize blocksPerChunk)
  | .allocate newChunk =>
    if s.pool.AlignedAlloc newChunk then
      match s.pool.allocate newChunk with
      | (.ok ptr, pool) => some {
          pool := pool
          held := ptr :: s.held
          peak := max s.peak (s.held.length + 1) }
      | (.error _, pool) => some { s with pool := pool }
    else none
  | .deallocate ptr =>
    if ptr = 0 ∨ ptr ∈ s.held then
      match s.pool.deallocate u ptr with
      | (.ok (), pool) => some { s with pool := pool, held := s.held.erase ptr }
      | (.error _, pool) => some { s with pool := pool }
    else none
  | .write address byte =>
    if s.Writable address then
      some { s with
        pool := { s.pool with memory := Function.update s.pool.memory address byte } }
    else none

end MemoryPool

end NetSentry
