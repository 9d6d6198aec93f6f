import NetSentry.Core.Equiv.PoolAddresses
import NetSentry.Core.ObjectPool
import NetSentry.Core.PoolAllocator

/-!
# Which calls of an `ObjectPool` are all or nothing

A call that throws should leave the pool as it was: the block that `allocate` has taken is free
again when the constructor throws, and the object that `deallocate` was given is still alive.

* `allOrNothing_iff`: in every reachable state `allocate` is so where the constructor does not
  throw, or does not run because there is no memory, and `deallocate` where it is given null, or an
  object in a block whose index in its chunk is a multiple of `sizeof(Block)`, and the destructor
  does not throw.
* `not_allOrNothing`: a block that is lost, and an object that is destroyed and then refused.
* `allocate_ofPoolAllocator`, `deallocate_ofPoolAllocator`: the pool behind a `PoolAllocator` is
  such a pool.

`allocate` does not catch what the constructor throws, and `deallocate` destroys the object before
the pool looks at its address.  `Inv` says where the objects are: one in a block that was handed
out, or outside of all chunks.
-/

namespace NetSentry.ObjectPool

open Transition MemoryPool

variable {sizeT blocksPerChunk : ℕ}

/-! ### The statement -/

/-- A block is on the list of the free blocks. -/
def Free (pool : MemoryPool sizeT blocksPerChunk) (p : ℕ) : Prop :=
  ∃ free, Chain (next pool.memory) 0 pool.freeBlocks free ∧ p ∈ free

/-- The blocks that were free are free, and so are those of the chunks that were added. -/
def KeepsFree (pool pool' : MemoryPool sizeT blocksPerChunk) : Prop :=
  (∀ p, Free pool p → Free pool' p) ∧
    ∀ chunk ∈ pool'.chunks, chunk ∉ pool.chunks →
      ∀ p ∈ chunkBlocks sizeT blocksPerChunk chunk, Free pool' p

/-- What is expected of a call that throws. -/
def AllOrNothing (u : ℕ → ℕ → ℕ) (w : World sizeT blocksPerChunk) : Call → Prop
  | .allocate newChunk written throws =>
    ∀ w', w.allocate newChunk written throws = (.error .object, w') → KeepsFree w.pool w'.pool
  | .deallocate object written throws =>
    ∀ e w', w.deallocate u object written throws = (.error e, w') →
      object ∈ w'.alive ∧ w'.pool = w.pool

/-- The constructor does not throw or does not run; the object can be given back, and its destructor
does not throw. -/
def Harmless (w : World sizeT blocksPerChunk) : Call → Prop
  | .allocate newChunk _ throws => throws = false ∨ (w.pool.freeBlocks = 0 ∧ newChunk = 0)
  | .deallocate object _ throws =>
    object = 0 ∨ (throws = false ∧ AtMultiple sizeT blocksPerChunk w.pool.chunks object)

/-! ### The free blocks -/

section Free

variable {pool : MemoryPool sizeT blocksPerChunk} {held : List ℕ} {p : ℕ}

/-- **The free blocks** are those that are not held. -/
theorem free_iff (h : Owned pool held) :
    Free pool p ↔ IsBlock sizeT blocksPerChunk pool.chunks p ∧ p ∉ held := by
  obtain ⟨free, hchain, hperm⟩ := h.free
  constructor
  · rintro ⟨free', hchain', hp⟩
    obtain rfl := hchain'.unique hchain
    exact ⟨isBlock_of_perm hperm (List.mem_append_left held hp), h.notMem_of_free hperm hp⟩
  · rintro ⟨hblock, hheld⟩
    have hmem : p ∈ free ++ held := hperm.mem_iff.mpr (mem_blocks.mpr hblock)
    exact ⟨free, hchain, (List.mem_append.mp hmem).resolve_right hheld⟩

end Free

/-! ### The bytes of an object -/

section Bytes

variable {pool : MemoryPool sizeT blocksPerChunk} {held : List ℕ} {chunk p : ℕ}

theorem sizeT_le_sizeofBlock (sizeT : ℕ) : sizeT ≤ sizeofBlock sizeT := by
  unfold sizeofBlock
  omega

/-- No byte of an object outside of a chunk is in the chunk. -/
theorem Outside.not_inChunk (h : Outside sizeT blocksPerChunk chunk p) {a : ℕ} (hle : p ≤ a)
    (hlt : a < p + sizeT) : ¬ InChunk sizeT blocksPerChunk chunk a := by
  unfold Outside at h
  unfold InChunk
  omega

/-- What a constructor or a destructor writes is in no free block. -/
theorem owned_overwrite (h : Owned pool held) (written : ByteMemory)
    (hplace : p ∈ held ∨ ∀ chunk ∈ pool.chunks, Outside sizeT blocksPerChunk chunk p) :
    Owned ({ pool with memory := overwrite sizeT pool.memory p written } :
      MemoryPool sizeT blocksPerChunk) held := by
  apply h.writes
  intro a hchanged
  have hin : p ≤ a ∧ a < p + sizeT := by
    by_contra hout
    exact hchanged (if_neg hout)
  rcases hplace with hheld | houtside
  · have hsize := sizeT_le_sizeofBlock sizeT
    exact .inl ⟨p, hheld, hin.1, by omega⟩
  · right
    intro chunk hchunk
    exact (houtside chunk hchunk).not_inChunk hin.1 hin.2

end Bytes

/-! ### The invariant -/

/-- **The invariant.** -/
structure Inv (w : World sizeT blocksPerChunk) : Prop where
  owned : Owned w.pool w.held
  nodup : w.alive.Nodup
  place : ∀ p ∈ w.alive,
    p ∈ w.held ∨ ∀ chunk ∈ w.pool.chunks, Outside sizeT blocksPerChunk chunk p

theorem inv_initial (memory : ByteMemory) :
    Inv (World.initial memory : World sizeT blocksPerChunk) where
  owned := owned_create memory
  nodup := .nil
  place := nofun

section Steps

variable {u : ℕ → ℕ → ℕ} {w w' : World sizeT blocksPerChunk} {newChunk object p : ℕ}
  {written : ByteMemory} {throws : Bool}

/-- Where there is no memory. -/
theorem pool_allocate_eq_error_iff {pool : MemoryPool sizeT blocksPerChunk} :
    pool.allocate newChunk = (.error .badAlloc, pool) ↔ pool.freeBlocks = 0 ∧ newChunk = 0 := by
  unfold MemoryPool.allocate MemoryPool.allocateChunk MemoryPool.popBlock
  split_ifs with hfree hnull <;> simp [*]

/-- **What `allocate` does**: the constructor runs in a block that is held from then on, or there is
no memory. -/
theorem allocate_cases (hpos : 0 < blocksPerChunk) (h : Owned w.pool w.held)
    (halloc : w.AlignedAlloc newChunk) :
    (∃ ptr pool, Owned pool (ptr :: w.held) ∧ ¬ (w.pool.freeBlocks = 0 ∧ newChunk = 0) ∧
      (pool.chunks = w.pool.chunks ∨
        (w.pool.freeBlocks = 0 ∧ pool.chunks = w.pool.chunks ++ [newChunk])) ∧
      ∀ written throws, w.allocate newChunk written throws
        = ({ w with pool := pool, held := ptr :: w.held } : World sizeT blocksPerChunk).construct
          ptr written throws) ∨
    (w.pool.freeBlocks = 0 ∧ newChunk = 0 ∧
      ∀ written throws, w.allocate newChunk written throws = (.error (.pool .badAlloc), w)) := by
  rcases h.allocate hpos halloc.1 with ⟨ptr, pool, heq, howned, hchunks⟩ | heq
  · left
    refine ⟨ptr, pool, howned, ?_, hchunks.imp And.right id, ?_⟩
    · intro hnone
      rw [pool_allocate_eq_error_iff.mpr hnone] at heq
      cases heq
    · intro written throws
      rw [World.allocate, heq]
  · right
    obtain ⟨hfree, hnull⟩ := pool_allocate_eq_error_iff.mp heq
    refine ⟨hfree, hnull, ?_⟩
    intro written throws
    rw [World.allocate, heq]

/-- An object outside of all chunks stays outside of those that there are after `allocate`, and no
block that is handed out is there. -/
theorem outside_of_chunks {pool : MemoryPool sizeT blocksPerChunk}
    (halloc : w.AlignedAlloc newChunk) (hnone : ¬ (w.pool.freeBlocks = 0 ∧ newChunk = 0))
    (hchunks : pool.chunks = w.pool.chunks ∨
      (w.pool.freeBlocks = 0 ∧ pool.chunks = w.pool.chunks ++ [newChunk]))
    (hp : p ∈ w.alive) (hheld : p ∉ w.held)
    (houtside : ∀ chunk ∈ w.pool.chunks, Outside sizeT blocksPerChunk chunk p) :
    ∀ chunk ∈ pool.chunks, Outside sizeT blocksPerChunk chunk p := by
  rcases hchunks with hsame | ⟨hfree, hnew⟩
  · rwa [hsame]
  · intro chunk hchunk
    rw [hnew] at hchunk
    rcases List.mem_append.mp hchunk with hold | hadded
    · exact houtside chunk hold
    · obtain rfl := List.mem_singleton.mp hadded
      have hne : chunk ≠ 0 := fun hnull => hnone ⟨hfree, hnull⟩
      exact halloc.2.resolve_left hne p hp hheld

/-- A block of the pool is not outside of its chunk. -/
theorem not_outside_of_isBlock (hsize : 0 < sizeT) {chunks : List ℕ}
    (hblock : IsBlock sizeT blocksPerChunk chunks p) :
    ¬ ∀ chunk ∈ chunks, Outside sizeT blocksPerChunk chunk p := by
  intro houtside
  obtain ⟨chunk, hchunk, k, hk, rfl⟩ := hblock
  exact (houtside chunk hchunk).not_inChunk (Nat.le_refl _) (by omega)
    (inChunk_blockAt sizeT chunk hk)

theorem inv_allocate (hsize : 0 < sizeT) (hpos : 0 < blocksPerChunk) (hinv : Inv w)
    (halloc : w.AlignedAlloc newChunk) : Inv (w.allocate newChunk written throws).2 := by
  rcases allocate_cases hpos hinv.owned halloc with
    ⟨ptr, pool, howned, hnone, hchunks, heq⟩ | ⟨_, _, heq⟩
  · have hplace : ∀ p ∈ w.alive, p ∈ ptr :: w.held ∨
        ∀ chunk ∈ pool.chunks, Outside sizeT blocksPerChunk chunk p := by
      intro p hp
      by_cases hheld : p ∈ w.held
      · exact .inl (List.mem_cons_of_mem ptr hheld)
      · exact .inr (outside_of_chunks halloc hnone hchunks hp hheld
          ((hinv.place p hp).resolve_left hheld))
    have howned' := owned_overwrite howned written (.inl List.mem_cons_self)
    rw [heq, World.construct]
    by_cases hthrows : throws
    · rw [if_pos hthrows]
      exact ⟨howned', hinv.nodup, hplace⟩
    · rw [if_neg hthrows]
      refine ⟨howned', ?_, ?_⟩
      · -- the block was free, so that no object was alive there
        refine List.nodup_cons.mpr ⟨?_, hinv.nodup⟩
        intro halive
        have hfresh := howned.notMem_of_cons
        have houtside := outside_of_chunks halloc hnone hchunks halive hfresh
          ((hinv.place ptr halive).resolve_left hfresh)
        exact not_outside_of_isBlock hsize (howned.isBlock List.mem_cons_self) houtside
      · intro p hp
        rcases List.mem_cons.mp hp with rfl | hp
        · exact .inl List.mem_cons_self
        · exact hplace p hp
  · rw [heq]
    exact hinv

/-- Destroying an object leaves the pool and the other objects as they are. -/
theorem inv_destroy (hinv : Inv w) (hobject : object ∈ w.alive) (written : ByteMemory) :
    Inv (w.destroy object written) where
  owned := owned_overwrite hinv.owned written (hinv.place object hobject)
  nodup := hinv.nodup.erase object
  place := fun p hp => hinv.place p (List.mem_of_mem_erase hp)

/-- **What `deallocate` does** with an object: it destroys it, and gives its block back unless the
destructor throws or the pool refuses the address. -/
theorem deallocate_cases (hne : object ≠ 0) :
    ((throws = true ∨ w.pool.isAddressInPool u object = false) ∧
      ∃ e, w.deallocate u object written throws = (.error e, w.destroy object written)) ∨
    (throws = false ∧ w.pool.isAddressInPool u object = true ∧
      w.deallocate u object written throws = (.ok (), {
        pool := { (w.destroy object written).pool with
          memory := setNext (w.destroy object written).pool.memory object w.pool.freeBlocks
          freeBlocks := object }
        held := w.held.erase object
        alive := w.alive.erase object })) := by
  rw [World.deallocate, if_neg hne]
  by_cases hthrows : throws
  · rw [if_pos hthrows]
    exact .inl ⟨.inl hthrows, _, rfl⟩
  · rw [if_neg hthrows, MemoryPool.deallocate, if_neg hne]
    -- the destructor does not change the chunks
    have hchunks : (w.destroy object written).pool.isAddressInPool u object
        = w.pool.isAddressInPool u object := rfl
    rw [hchunks]
    by_cases hin : w.pool.isAddressInPool u object
    · rw [if_pos hin]
      exact .inr ⟨Bool.eq_false_iff.mpr hthrows, hin, rfl⟩
    · rw [if_neg hin]
      exact .inl ⟨.inr (Bool.eq_false_iff.mpr hin), _, rfl⟩

/-- Which objects the pool accepts. -/
theorem isAddressInPool_iff_of_alive (hsize : 0 < sizeT) (hinv : Inv w)
    (hobject : object ∈ w.alive) :
    w.pool.isAddressInPool u object = true ↔
      AtMultiple sizeT blocksPerChunk w.pool.chunks object := by
  rcases hinv.place object hobject with hheld | houtside
  · exact isAddressInPool_iff_atMultiple hinv.owned.separate (hinv.owned.isBlock hheld)
  · have hno : w.pool.isAddressInPool u object = false := by
      apply isAddressIn_of_forall_not
      intro chunk hchunk
      exact (houtside chunk hchunk).not_inChunk (Nat.le_refl _) (by omega)
    rw [hno]
    constructor
    · nofun
    · rintro ⟨chunk, hchunk, k, hk, heq, _⟩
      exact absurd houtside (not_outside_of_isBlock hsize ⟨chunk, hchunk, k, hk, heq⟩)

theorem inv_deallocate (hsize : 0 < sizeT) (hinv : Inv w)
    (hobject : object = 0 ∨ object ∈ w.alive) :
    Inv (w.deallocate u object written throws).2 := by
  by_cases hnull : object = 0
  · rw [World.deallocate, if_pos hnull]
    exact hinv
  · have halive := hobject.resolve_left hnull
    have hdestroyed := inv_destroy hinv halive written
    rcases deallocate_cases (w := w) hnull with ⟨_, e, heq⟩ | ⟨_, haccepted, heq⟩
    · rw [heq]
      exact hdestroyed
    · have hheld : object ∈ w.held := by
        obtain ⟨chunk, hchunk, k, hk, hat, _⟩ :=
          (isAddressInPool_iff_of_alive hsize hinv halive).mp haccepted
        exact (hinv.place object halive).resolve_right
          (not_outside_of_isBlock hsize ⟨chunk, hchunk, k, hk, hat⟩)
      rw [heq]
      refine ⟨hdestroyed.owned.pushBlock hheld, hdestroyed.nodup, ?_⟩
      intro p hp
      obtain ⟨hne, hp⟩ := hinv.nodup.mem_erase_iff.mp hp
      exact (hinv.place p hp).imp_left fun hmem => (List.mem_erase_of_ne hne).mpr hmem

/-- **One step keeps the invariant.** -/
theorem inv_step (hsize : 0 < sizeT) (hpos : 0 < blocksPerChunk) {a : Action} (hinv : Inv w)
    (h : step u w a = some w') : Inv w' := by
  cases a with
  | call call =>
    simp only [step] at h
    split_ifs at h with hadmits
    obtain rfl := Option.some.inj h
    cases call with
    | allocate newChunk written throws => exact inv_allocate hsize hpos hinv hadmits
    | deallocate object written throws => exact inv_deallocate hsize hinv hadmits
  | construct object =>
    simp only [step] at h
    split_ifs at h with helsewhere
    obtain rfl := Option.some.inj h
    refine ⟨hinv.owned, List.nodup_cons.mpr ⟨helsewhere.2.1, hinv.nodup⟩, ?_⟩
    intro p hp
    rcases List.mem_cons.mp hp with rfl | hp
    · exact .inr helsewhere.2.2
    · exact hinv.place p hp
  | write address byte =>
    simp only [step] at h
    split_ifs at h with hwritable
    obtain rfl := Option.some.inj h
    exact ⟨hinv.owned.write byte hwritable, hinv.nodup, hinv.place⟩

/-! ### The two operations -/

/-- A block that the pool hands out was free, or is one of a new chunk, and is not free as long as
it is held. -/
theorem not_keepsFree {pool : MemoryPool sizeT blocksPerChunk} (hinv : Inv w) {ptr : ℕ}
    (howned : Owned pool (ptr :: w.held)) : ¬ KeepsFree w.pool pool := by
  rintro ⟨hkeeps, hnew⟩
  have hlost : ¬ Free pool ptr := by
    rw [free_iff howned]
    exact fun hfree => hfree.2 List.mem_cons_self
  by_cases hold : IsBlock sizeT blocksPerChunk w.pool.chunks ptr
  · exact hlost (hkeeps ptr ((free_iff hinv.owned).mpr ⟨hold, howned.notMem_of_cons⟩))
  · obtain ⟨chunk, hchunk, k, hk, rfl⟩ := howned.isBlock List.mem_cons_self
    have hadded : chunk ∉ w.pool.chunks := fun hmem => hold ⟨chunk, hmem, k, hk, rfl⟩
    exact hlost (hnew chunk hchunk hadded _ (List.mem_map_of_mem (List.mem_range.mpr hk)))

/-- **`allocate` is all or nothing** where the constructor does not throw or does not run. -/
theorem allOrNothing_allocate_iff (hpos : 0 < blocksPerChunk) (hinv : Inv w)
    (halloc : w.AlignedAlloc newChunk) :
    AllOrNothing u w (.allocate newChunk written throws) ↔
      throws = false ∨ (w.pool.freeBlocks = 0 ∧ newChunk = 0) := by
  simp only [AllOrNothing]
  rcases allocate_cases hpos hinv.owned halloc with
    ⟨ptr, pool, howned, hnone, _, heq⟩ | ⟨hfree, hnull, heq⟩
  · rw [heq, World.construct]
    by_cases hthrows : throws
    · rw [if_pos hthrows]
      have howned' := owned_overwrite howned written (.inl List.mem_cons_self)
      constructor
      · intro hall
        exact absurd (hall _ rfl) (not_keepsFree hinv howned')
      · rintro (hfalse | hnone')
        · rw [hfalse] at hthrows
          cases hthrows
        · exact absurd hnone' hnone
    · rw [if_neg hthrows]
      exact ⟨fun _ => .inl (Bool.eq_false_iff.mpr hthrows), fun _ => nofun⟩
  · rw [heq]
    exact ⟨fun _ => .inr ⟨hfree, hnull⟩, fun _ => nofun⟩

/-- **`deallocate` is all or nothing** where the destructor does not throw and the pool accepts the
address. -/
theorem allOrNothing_deallocate_iff (hsize : 0 < sizeT) (hinv : Inv w)
    (hobject : object = 0 ∨ object ∈ w.alive) :
    AllOrNothing u w (.deallocate object written throws) ↔
      object = 0 ∨ (throws = false ∧ AtMultiple sizeT blocksPerChunk w.pool.chunks object) := by
  simp only [AllOrNothing]
  by_cases hnull : object = 0
  · rw [World.deallocate, if_pos hnull]
    exact ⟨fun _ => .inl hnull, fun _ => nofun⟩
  · have halive := hobject.resolve_left hnull
    rw [← isAddressInPool_iff_of_alive hsize hinv halive (u := u)]
    rcases deallocate_cases (w := w) hnull with ⟨hrefused, e, heq⟩ | ⟨hthrows, haccepted, heq⟩
    · rw [heq]
      constructor
      · -- the object is not alive any more
        intro hall
        exact absurd (hall e _ rfl).1 hinv.nodup.not_mem_erase
      · rintro (hzero | ⟨hthrows, haccepted⟩)
        · exact absurd hzero hnull
        · rw [hthrows, haccepted] at hrefused
          rcases hrefused with h | h <;> cases h
    · rw [heq]
      exact ⟨fun _ => .inr ⟨hthrows, haccepted⟩, fun _ => nofun⟩

theorem inv_of_reaches (hsize : 0 < sizeT) (hpos : 0 < blocksPerChunk) {memory : ByteMemory}
    (h : Reaches (step u) (fun _ _ => True) (World.initial memory) w) : Inv w :=
  h.invariant (fun _ _ _ hinv _ hstep => inv_step hsize hpos hinv hstep) (inv_initial memory)

/-- **Which calls are all or nothing**, in every reachable state, whatever the constructor and the
destructor write. -/
theorem allOrNothing_iff (hsize : 0 < sizeT) (hpos : 0 < blocksPerChunk) {memory : ByteMemory}
    (h : Reaches (step u) (fun _ _ => True) (World.initial memory) w) {call : Call}
    (hadmits : w.Admits call) : AllOrNothing u w call ↔ Harmless w call := by
  have hinv := inv_of_reaches hsize hpos h
  cases call with
  | allocate newChunk written throws => exact allOrNothing_allocate_iff hpos hinv hadmits
  | deallocate object written throws => exact allOrNothing_deallocate_iff hsize hinv hadmits

end Steps

/-! ### The pool of a `PoolAllocator` -/

section PoolAllocator

/-- The pool that all allocators for a type share, where these objects are alive. -/
def ofPoolAllocator (w : PoolAllocator.World sizeT) (alive : List ℕ) : World sizeT 128 where
  pool := w.pool
  held := w.held
  alive := alive

theorem overwrite_self (sizeT : ℕ) (memory : ByteMemory) (p : ℕ) :
    overwrite sizeT memory p memory = memory :=
  funext fun _ => ite_self _

/-- `PoolAllocator::allocate(1)` does what `allocate` does, where what the constructor writes is a
step of its own. -/
theorem allocate_ofPoolAllocator (w : PoolAllocator.World sizeT) (alive : List ℕ) (newChunk : ℕ)
    (throws : Bool) :
    ∃ result alive', (ofPoolAllocator w alive).allocate newChunk (w.pool.allocate newChunk).2.memory
        throws = (result, ofPoolAllocator (w.poolAllocate newChunk throws).2 alive') ∧
      (w.poolAllocate newChunk throws).1 = result.toOption := by
  unfold World.allocate PoolAllocator.World.poolAllocate ofPoolAllocator
  rcases w.pool.allocate newChunk with ⟨e | memory, pool⟩
  · exact ⟨_, alive, rfl, rfl⟩
  · simp only [World.construct, overwrite_self]
    cases throws with
    | false => exact ⟨_, memory :: alive, rfl, rfl⟩
    | true => exact ⟨_, alive, rfl, rfl⟩

/-- `PoolAllocator::deallocate(p, 1)` does what `deallocate` does. -/
theorem deallocate_ofPoolAllocator (w : PoolAllocator.World sizeT) (alive : List ℕ)
    (u : ℕ → ℕ → ℕ) (object : ℕ) :
    ∃ alive', ((ofPoolAllocator w alive).deallocate u object w.pool.memory false).2
      = ofPoolAllocator (w.poolDeallocate u object) alive' := by
  unfold World.deallocate PoolAllocator.World.poolDeallocate
  by_cases hnull : object = 0
  · rw [if_pos hnull, if_pos hnull]
    exact ⟨alive, rfl⟩
  · rw [if_neg hnull, if_neg hnull]
    have hpool : ((ofPoolAllocator w alive).destroy object w.pool.memory).pool = w.pool := by
      rw [World.destroy]
      simp only [ofPoolAllocator, overwrite_self]
    have hdestroy : (w.destroy object).pool = w.pool := rfl
    simp only [hpool, hdestroy]
    rcases w.pool.deallocate u object with ⟨e | _, pool⟩ <;>
      exact ⟨alive.erase object, rfl⟩

end PoolAllocator

/-! ### Two runs -/

/-- Two objects are constructed in the blocks of a chunk. -/
def twoObjects : List Action :=
  [.call (.allocate 4096 (fun _ => 1) false), .call (.allocate 0 (fun _ => 2) false)]

/-- The first one can be given back. -/
theorem allOrNothing_iff_firstObject :
    ∃ w : World 8 2,
      run (step fun _ _ => 0) (fun _ _ => True) (World.initial fun _ => 0) twoObjects = some w ∧
      w.alive = [4104, 4096] ∧
      AllOrNothing (fun _ _ => 0) w (.deallocate 4096 (fun _ => 0) false) := by
  obtain ⟨w, hrun, halive, hchunks⟩ : ∃ w : World 8 2,
      run (step fun _ _ => 0) (fun _ _ => True) (World.initial fun _ => 0) twoObjects = some w ∧
      w.alive = [4104, 4096] ∧ w.pool.chunks = [4096] := ⟨_, rfl, rfl, rfl⟩
  refine ⟨w, hrun, halive, ?_⟩
  have hadmits : w.Admits (.deallocate 4096 (fun _ => 0) false) := by
    right
    rw [halive]
    decide
  refine (allOrNothing_iff (by decide) (by decide) (reaches_of_run hrun) hadmits).mpr (.inr ?_)
  rw [hchunks]
  exact ⟨rfl, 4096, List.mem_singleton_self _, 0, by decide, rfl, Nat.dvd_zero _⟩

/-- The first block of a chunk is lost when the constructor throws, and of two objects the second
one is destroyed before the pool refuses its address. -/
theorem not_allOrNothing :
    (∃ w : World 8 2, Reaches (step fun _ _ => 0) (fun _ _ => True) (World.initial fun _ => 0) w ∧
      w.Admits (.allocate 4096 (fun _ => 1) true) ∧
      ¬ AllOrNothing (fun _ _ => 0) w (.allocate 4096 (fun _ => 1) true)) ∧
    (∃ w : World 8 2, Reaches (step fun _ _ => 0) (fun _ _ => True) (World.initial fun _ => 0) w ∧
      w.Admits (.deallocate 4104 (fun _ => 0) false) ∧
      ¬ AllOrNothing (fun _ _ => 0) w (.deallocate 4104 (fun _ => 0) false)) := by
  constructor
  · refine ⟨World.initial fun _ => 0, .refl _, by decide, ?_⟩
    rw [allOrNothing_allocate_iff Nat.two_pos (inv_initial _) (by decide)]
    rintro (h | ⟨_, h⟩) <;> cases h
  · obtain ⟨w, hrun, halive, hchunks⟩ : ∃ w : World 8 2,
        run (step fun _ _ => 0) (fun _ _ => True) (World.initial fun _ => 0) twoObjects = some w ∧
        w.alive = [4104, 4096] ∧ w.pool.chunks = [4096] := ⟨_, rfl, rfl, rfl⟩
    have hreach := reaches_of_run hrun
    have hobject : 4104 = 0 ∨ 4104 ∈ w.alive := by
      right
      rw [halive]
      decide
    refine ⟨w, hreach, hobject, ?_⟩
    have hinv := inv_of_reaches (by decide) Nat.two_pos hreach
    rw [allOrNothing_deallocate_iff (by decide) hinv hobject]
    rintro (h | ⟨_, c, hc, k, hk, hat, hdvd⟩)
    · cases h
    · -- the index of the second block is one
      rw [hchunks] at hc
      obtain rfl := List.mem_singleton.mp hc
      have hsizeof : sizeofBlock 8 = 8 := rfl
      rw [blockAt, hsizeof] at hat
      rw [hsizeof] at hdvd
      omega

end NetSentry.ObjectPool
