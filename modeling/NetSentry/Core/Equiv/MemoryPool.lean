import Mathlib.Data.List.Nodup
import Mathlib.Data.List.Pairwise
import NetSentry.Core.MemoryPool
import NetSentry.Lib.LinkedChain
import NetSentry.Lib.Transition

/-!
# Blocks of the pool

`Owned`: the chunks lie apart from each other, the chain from `free_blocks_` ends, and its blocks
and those that clients hold are all the blocks of the chunks.

* `Owned.popBlock`, `Owned.allocateChunk`, `Owned.pushBlock`, `Owned.write`: what the operations and
  the writes of clients make of it.
* `blocks_exclusive`: it holds in every state of every run, so that no block is handed out twice.
-/

namespace NetSentry.MemoryPool

open Transition

variable {blockSize blocksPerChunk : ℕ}

/-! ### Addresses -/

theorem eight_le_sizeofBlock (blockSize : ℕ) : 8 ≤ sizeofBlock blockSize := by
  unfold sizeofBlock
  omega

theorem blockAt_zero (chunk : ℕ) : blockAt blockSize chunk 0 = chunk := by
  rw [blockAt, Nat.zero_mul, Nat.add_zero]

/-- A block ends before the ones after it begin. -/
theorem blockAt_add_le (blockSize chunk : ℕ) {i j : ℕ} (h : i < j) :
    blockAt blockSize chunk i + sizeofBlock blockSize ≤ blockAt blockSize chunk j := by
  have hmul : (i + 1) * sizeofBlock blockSize ≤ j * sizeofBlock blockSize :=
    Nat.mul_le_mul_right _ h
  rw [Nat.succ_mul] at hmul
  unfold blockAt
  omega

theorem le_blockAt (blockSize chunk i : ℕ) : chunk ≤ blockAt blockSize chunk i :=
  Nat.le_add_right _ _

instance : Std.Symm (Apart blockSize blocksPerChunk) := ⟨fun _ _ h => h.symm⟩

/-- The chunks lie apart from each other, in the address space, and none at the null pointer. -/
structure Separate (blockSize blocksPerChunk : ℕ) (chunks : List ℕ) : Prop where
  pairwise : chunks.Pairwise (Apart blockSize blocksPerChunk)
  ne_zero : ∀ c ∈ chunks, c ≠ 0
  lt : ∀ c ∈ chunks, blockAt blockSize c blocksPerChunk < 2 ^ 64

/-- An address is that of a block of some chunk. -/
def IsBlock (blockSize blocksPerChunk : ℕ) (chunks : List ℕ) (p : ℕ) : Prop :=
  ∃ c ∈ chunks, ∃ k < blocksPerChunk, p = blockAt blockSize c k

theorem mem_blocks {chunks : List ℕ} {p : ℕ} :
    p ∈ blocks blockSize blocksPerChunk chunks ↔ IsBlock blockSize blocksPerChunk chunks p := by
  simp only [blocks, chunkBlocks, IsBlock, List.mem_flatMap, List.mem_map, List.mem_range]
  simp only [eq_comm]

theorem length_blocks (blockSize blocksPerChunk : ℕ) (chunks : List ℕ) :
    (blocks blockSize blocksPerChunk chunks).length = blocksPerChunk * chunks.length := by
  rw [blocks, List.length_flatMap]
  simp [chunkBlocks, Nat.mul_comm]

section Separate

variable {chunks : List ℕ} {p q : ℕ}

/-- A block lies in its chunk. -/
theorem IsBlock.inChunk (h : IsBlock blockSize blocksPerChunk chunks p) :
    ∃ c ∈ chunks, c ≤ p ∧ p + sizeofBlock blockSize ≤ blockAt blockSize c blocksPerChunk := by
  obtain ⟨c, hc, k, hk, rfl⟩ := h
  exact ⟨c, hc, le_blockAt blockSize c k, blockAt_add_le blockSize c hk⟩

theorem IsBlock.ne_zero (hsep : Separate blockSize blocksPerChunk chunks)
    (h : IsBlock blockSize blocksPerChunk chunks p) : p ≠ 0 := by
  obtain ⟨c, hc, hle, _⟩ := h.inChunk
  have hne := hsep.ne_zero c hc
  omega

theorem IsBlock.lt (hsep : Separate blockSize blocksPerChunk chunks)
    (h : IsBlock blockSize blocksPerChunk chunks p) : p < 2 ^ 64 := by
  obtain ⟨c, hc, _, hle⟩ := h.inChunk
  have hlt := hsep.lt c hc
  omega

/-- **Different blocks lie apart.** -/
theorem IsBlock.apart (hsep : Separate blockSize blocksPerChunk chunks)
    (hp : IsBlock blockSize blocksPerChunk chunks p)
    (hq : IsBlock blockSize blocksPerChunk chunks q) (hne : p ≠ q) :
    p + sizeofBlock blockSize ≤ q ∨ q + sizeofBlock blockSize ≤ p := by
  obtain ⟨c, hc, k, hk, rfl⟩ := hp
  obtain ⟨d, hd, l, hl, rfl⟩ := hq
  by_cases hcd : c = d
  · subst hcd
    rcases Nat.lt_trichotomy k l with hkl | rfl | hkl
    · exact .inl (blockAt_add_le blockSize c hkl)
    · exact absurd rfl hne
    · exact .inr (blockAt_add_le blockSize c hkl)
  · -- the chunks lie apart
    have hapart : Apart blockSize blocksPerChunk c d := hsep.pairwise.forall hc hd hcd
    have hp := blockAt_add_le blockSize c hk
    have hq := blockAt_add_le blockSize d hl
    have hcp := le_blockAt blockSize c k
    have hdq := le_blockAt blockSize d l
    unfold Apart at hapart
    omega

end Separate

theorem nodup_blocks {chunks : List ℕ} (hsep : Separate blockSize blocksPerChunk chunks) :
    (blocks blockSize blocksPerChunk chunks).Nodup := by
  have hpos := eight_le_sizeofBlock blockSize
  refine List.nodup_flatMap.mpr ⟨?_, ?_⟩
  · intro c _
    refine List.Nodup.map ?_ List.nodup_range
    intro i j hij
    have hmul : i * sizeofBlock blockSize = j * sizeofBlock blockSize := Nat.add_left_cancel hij
    exact Nat.eq_of_mul_eq_mul_right (by omega) hmul
  · apply hsep.pairwise.imp
    intro c d hapart p hpc hpd
    obtain ⟨k, hk, rfl⟩ := List.mem_map.mp hpc
    obtain ⟨l, hl, hlk⟩ := List.mem_map.mp hpd
    have hk := blockAt_add_le blockSize c (List.mem_range.mp hk)
    have hl := blockAt_add_le blockSize d (List.mem_range.mp hl)
    have hck := le_blockAt blockSize c k
    have hdl := le_blockAt blockSize d l
    unfold Apart at hapart
    omega

/-! ### The free list -/

theorem next_setNext_self (memory : ByteMemory) (block : ℕ) {value : ℕ} (h : value < 2 ^ 64) :
    next (setNext memory block value) block = value := by
  rw [next, setNext, ByteMemory.load_store_self]
  exact Nat.mod_eq_of_lt h

theorem next_setNext_of_apart (memory : ByteMemory) {block other : ℕ} (value : ℕ)
    (h : block + 8 ≤ other ∨ other + 8 ≤ block) :
    next (setNext memory block value) other = next memory other :=
  ByteMemory.load_store_of_disjoint value h

theorem next_congr {memory memory' : ByteMemory} {block : ℕ}
    (h : ∀ b, block ≤ b → b < block + 8 → memory' b = memory b) :
    next memory' block = next memory block :=
  ByteMemory.load_congr h

/-- The chunks lie apart, the chain from `free_blocks_` ends, and its blocks and those that are held
are all the blocks there are. -/
structure Owned (s : MemoryPool blockSize blocksPerChunk) (held : List ℕ) : Prop where
  separate : Separate blockSize blocksPerChunk s.chunks
  free : ∃ free, Chain (next s.memory) 0 s.freeBlocks free ∧
    (free ++ held).Perm (blocks blockSize blocksPerChunk s.chunks)

section Owned

-- the lemmas above say all that matters of the two
attribute [local irreducible] next setNext

variable {s : MemoryPool blockSize blocksPerChunk} {held : List ℕ}

theorem owned_create (memory : ByteMemory) :
    Owned (create memory : MemoryPool blockSize blocksPerChunk) [] where
  separate := ⟨.nil, nofun, nofun⟩
  free := ⟨[], .nil, .refl _⟩

/-- The blocks that are free and those that are held. -/
theorem isBlock_of_perm {free : List ℕ}
    (hperm : (free ++ held).Perm (blocks blockSize blocksPerChunk s.chunks)) {p : ℕ}
    (hp : p ∈ free ++ held) : IsBlock blockSize blocksPerChunk s.chunks p :=
  mem_blocks.mp (hperm.mem_iff.mp hp)

/-- No block is free and held, or held twice. -/
theorem Owned.nodup (h : Owned s held) {free : List ℕ}
    (hperm : (free ++ held).Perm (blocks blockSize blocksPerChunk s.chunks)) :
    (free ++ held).Nodup :=
  hperm.nodup_iff.mpr (nodup_blocks h.separate)

/-- A held block is a block of the pool. -/
theorem Owned.isBlock (h : Owned s held) {p : ℕ} (hp : p ∈ held) :
    IsBlock blockSize blocksPerChunk s.chunks p := by
  obtain ⟨free, _, hperm⟩ := h.free
  exact isBlock_of_perm hperm (List.mem_append_right free hp)

/-- The block that was handed out last was not held before. -/
theorem Owned.notMem_of_cons {p : ℕ} (h : Owned s (p :: held)) : p ∉ held := by
  obtain ⟨free, _, hperm⟩ := h.free
  exact (List.nodup_cons.mp (List.nodup_append'.mp (h.nodup hperm)).2.1).1

/-- A free block is not held. -/
theorem Owned.notMem_of_free (h : Owned s held) {free : List ℕ}
    (hperm : (free ++ held).Perm (blocks blockSize blocksPerChunk s.chunks)) {p : ℕ}
    (hp : p ∈ free) : p ∉ held :=
  fun hheld => (List.nodup_append.mp (h.nodup hperm)).2.2 p hp p hheld rfl

/-- **The first free block** goes to the client. -/
theorem Owned.popBlock (h : Owned s held) (hfree : s.freeBlocks ≠ 0) :
    Owned s.popBlock.2 (s.freeBlocks :: held) := by
  obtain ⟨free, hchain, hperm⟩ := h.free
  obtain ⟨rest, rfl, hrest⟩ := hchain.exists_cons hfree
  rw [List.cons_append] at hperm
  show Owned ({ s with freeBlocks := next s.memory s.freeBlocks } :
    MemoryPool blockSize blocksPerChunk) (s.freeBlocks :: held)
  exact ⟨h.separate, rest, hrest, List.perm_middle.trans hperm⟩

/-- **A freed block** becomes the first one. -/
theorem Owned.pushBlock (h : Owned s held) {p : ℕ} (hp : p ∈ held) :
    Owned ({ s with memory := setNext s.memory p s.freeBlocks, freeBlocks := p } :
      MemoryPool blockSize blocksPerChunk) (held.erase p) := by
  obtain ⟨free, hchain, hperm⟩ := h.free
  have hblock : ∀ q ∈ free ++ held, IsBlock blockSize blocksPerChunk s.chunks q :=
    fun q hq => isBlock_of_perm hperm hq
  have hpBlock := hblock p (List.mem_append_right free hp)
  have hfreeLt : s.freeBlocks < 2 ^ 64 := by
    by_cases hzero : s.freeBlocks = 0
    · rw [hzero]
      exact Nat.two_pow_pos 64
    · obtain ⟨rest, rfl, _⟩ := hchain.exists_cons hzero
      exact (hblock _ List.mem_cons_self).lt h.separate
  refine ⟨h.separate, p :: free, ?_, ?_⟩
  · apply Chain.cons (hpBlock.ne_zero h.separate)
    show Chain (next (setNext s.memory p s.freeBlocks)) 0 _ _
    rw [next_setNext_self _ _ hfreeLt]
    apply hchain.congr
    intro q hq
    -- a free block lies apart from one that was held
    have hpq : p ≠ q := by
      rintro rfl
      exact h.notMem_of_free hperm hq hp
    have hapart := hpBlock.apart h.separate (hblock q (List.mem_append_left held hq)) hpq
    have hsize := eight_le_sizeofBlock blockSize
    exact next_setNext_of_apart _ _ (by omega)
  · show (p :: (free ++ held.erase p)).Perm _
    have herase : (p :: held.erase p).Perm held := (List.perm_cons_erase hp).symm
    exact (List.perm_middle.symm.trans (herase.append_left free)).trans hperm

/-! ### A new chunk -/

/-- The loop links each block to the one after it. -/
theorem link_range (blockSize chunk : ℕ) (memory : ByteMemory) {n : ℕ}
    (hlt : blockAt blockSize chunk n < 2 ^ 64) :
    ∀ i < n, next ((List.range n).foldl (fun memory i =>
        setNext memory (blockAt blockSize chunk i) (blockAt blockSize chunk (i + 1))) memory)
      (blockAt blockSize chunk i) = blockAt blockSize chunk (i + 1) := by
  have hsize := eight_le_sizeofBlock blockSize
  induction n with
  | zero => nofun
  | succ n ih =>
    have hstep := blockAt_add_le blockSize chunk (show n < n + 1 by omega)
    intro i hi
    rw [List.range_succ, List.foldl_append]
    rcases Nat.lt_succ_iff_lt_or_eq.mp hi with hbefore | rfl
    · have hapart := blockAt_add_le blockSize chunk hbefore
      exact (next_setNext_of_apart _ _ (by omega)).trans (ih (by omega) i hbefore)
    · exact next_setNext_self _ _ hlt

/-- The loop, and the assignment after it. -/
theorem linkBlocks_succ (blockSize n chunk : ℕ) (memory : ByteMemory) :
    linkBlocks blockSize (n + 1) chunk memory
      = setNext ((List.range n).foldl (fun memory i =>
          setNext memory (blockAt blockSize chunk i) (blockAt blockSize chunk (i + 1))) memory)
        (blockAt blockSize chunk n) 0 := rfl

/-- The chain through a new chunk. -/
theorem chain_linkBlocks (memory : ByteMemory) {chunk : ℕ} (hpos : 0 < blocksPerChunk)
    (hne : chunk ≠ 0) (hlt : blockAt blockSize chunk blocksPerChunk < 2 ^ 64) :
    Chain (next (linkBlocks blockSize blocksPerChunk chunk memory)) 0 chunk
      (chunkBlocks blockSize blocksPerChunk chunk) := by
  obtain ⟨n, rfl⟩ : ∃ n, blocksPerChunk = n + 1 := ⟨blocksPerChunk - 1, by omega⟩
  have hsize := eight_le_sizeofBlock blockSize
  have hlast := blockAt_add_le blockSize chunk (show n < n + 1 by omega)
  have hlinked := link_range blockSize chunk memory (n := n) (by omega)
  rw [linkBlocks_succ]
  have hchain := fun next hnext hend hne =>
    @chain_of_seq ℕ next 0 (blockAt blockSize chunk) n hnext hend hne
  rw [blockAt_zero] at hchain
  refine hchain _ ?_ ?_ ?_
  · intro i hi
    have hapart := blockAt_add_le blockSize chunk hi
    exact (next_setNext_of_apart _ _ (by omega)).trans (hlinked i hi)
  · exact next_setNext_self _ _ (Nat.two_pow_pos 64)
  · intro i _
    have hle := le_blockAt blockSize chunk i
    omega

theorem Separate.concat {chunks : List ℕ} (h : Separate blockSize blocksPerChunk chunks)
    {chunk : ℕ} (hne : chunk ≠ 0) (hlt : blockAt blockSize chunk blocksPerChunk < 2 ^ 64)
    (hapart : ∀ c ∈ chunks, Apart blockSize blocksPerChunk c chunk) :
    Separate blockSize blocksPerChunk (chunks ++ [chunk]) where
  pairwise := by
    refine List.pairwise_append.mpr ⟨h.pairwise, List.pairwise_singleton _ _, ?_⟩
    intro c hc d hd
    obtain rfl := List.mem_singleton.mp hd
    exact hapart c hc
  ne_zero := by
    intro c hc
    rcases List.mem_append.mp hc with hc | hc
    · exact h.ne_zero c hc
    · exact List.mem_singleton.mp hc ▸ hne
  lt := by
    intro c hc
    rcases List.mem_append.mp hc with hc | hc
    · exact h.lt c hc
    · exact List.mem_singleton.mp hc ▸ hlt

/-- When no block is free, all of them are held. -/
theorem Owned.held_perm (h : Owned s held) (hfree : s.freeBlocks = 0) :
    held.Perm (blocks blockSize blocksPerChunk s.chunks) := by
  obtain ⟨free, hchain, hperm⟩ := h.free
  rw [hfree] at hchain
  rwa [hchain.eq_nil, List.nil_append] at hperm

/-- The memory that `aligned_alloc` returns is a whole chunk in the address space. -/
theorem alignedAlloc_iff {newChunk : ℕ} :
    s.AlignedAlloc newChunk ↔ newChunk = 0 ∨
      (blockAt blockSize newChunk blocksPerChunk < 2 ^ 64 ∧
        ∀ chunk ∈ s.chunks, Apart blockSize blocksPerChunk chunk newChunk) := by
  have hat : blockAt blockSize newChunk blocksPerChunk
      = newChunk + sizeofBlock blockSize * blocksPerChunk := by
    rw [blockAt, Nat.mul_comm]
  rw [AlignedAlloc, hat]
  constructor
  · rintro (hnull | ⟨hsize, hlt, hapart⟩)
    · exact .inl hnull
    · exact .inr ⟨hsize ▸ hlt, hapart⟩
  · rintro (hnull | ⟨hlt, hapart⟩)
    · exact .inl hnull
    · -- what fits into the address space has not wrapped
      have hsize : allocSize blockSize blocksPerChunk = sizeofBlock blockSize * blocksPerChunk :=
        Nat.mod_eq_of_lt (by omega)
      exact .inr ⟨hsize, hsize ▸ hlt, hapart⟩

/-- **A new chunk** gives as many free blocks as it has. -/
theorem Owned.allocateChunk (h : Owned s held) (hpos : 0 < blocksPerChunk)
    (hfree : s.freeBlocks = 0) {newChunk : ℕ} (halloc : s.AlignedAlloc newChunk)
    (hne : newChunk ≠ 0) :
    Owned ({
      chunks := s.chunks ++ [newChunk]
      memory := linkBlocks blockSize blocksPerChunk newChunk s.memory
      freeBlocks := newChunk } : MemoryPool blockSize blocksPerChunk) held := by
  obtain ⟨hlt, hapart⟩ := (alignedAlloc_iff.mp halloc).resolve_left hne
  refine ⟨h.separate.concat hne hlt hapart, _, chain_linkBlocks s.memory hpos hne hlt, ?_⟩
  have hblocks : blocks blockSize blocksPerChunk (s.chunks ++ [newChunk])
      = blocks blockSize blocksPerChunk s.chunks
        ++ chunkBlocks blockSize blocksPerChunk newChunk := by
    rw [blocks, List.flatMap_append, List.flatMap_singleton]
    rfl
  rw [hblocks]
  exact List.perm_append_comm.trans ((h.held_perm hfree).append_right _)

/-- **`allocate`** hands out a block, from the free list or from a new chunk, or throws. -/
theorem Owned.allocate (h : Owned s held) (hpos : 0 < blocksPerChunk) {newChunk : ℕ}
    (halloc : s.AlignedAlloc newChunk) :
    (∃ ptr pool, s.allocate newChunk = (.ok ptr, pool) ∧ Owned pool (ptr :: held) ∧
      ((s.freeBlocks ≠ 0 ∧ pool.chunks = s.chunks) ∨
        (s.freeBlocks = 0 ∧ pool.chunks = s.chunks ++ [newChunk]))) ∨
    (s.allocate newChunk = (.error .badAlloc, s)) := by
  unfold MemoryPool.allocate
  by_cases hfree : s.freeBlocks = 0
  · rw [if_pos hfree]
    unfold MemoryPool.allocateChunk
    by_cases hne : newChunk = 0
    · rw [if_pos hne]
      exact .inr rfl
    · rw [if_neg hne]
      exact .inl ⟨_, _, rfl, (h.allocateChunk hpos hfree halloc hne).popBlock hne,
        .inr ⟨hfree, rfl⟩⟩
  · rw [if_neg hfree]
    exact .inl ⟨_, _, rfl, h.popBlock hfree, .inl ⟨hfree, rfl⟩⟩

/-- The bytes that clients write are in no free block. -/
theorem Owned.writes (h : Owned s held) {memory : ByteMemory}
    (hwritable : ∀ address, memory address ≠ s.memory address →
      (∃ block ∈ held, block ≤ address ∧ address < block + sizeofBlock blockSize) ∨
        ∀ chunk ∈ s.chunks, ¬ InChunk blockSize blocksPerChunk chunk address) :
    Owned ({ s with memory := memory } : MemoryPool blockSize blocksPerChunk) held := by
  obtain ⟨free, hchain, hperm⟩ := h.free
  refine ⟨h.separate, free, hchain.congr ?_, hperm⟩
  intro q hq
  have hsize := eight_le_sizeofBlock blockSize
  have hqBlock := isBlock_of_perm hperm (List.mem_append_left held hq)
  apply next_congr
  intro b hle hlt
  by_contra hchanged
  rcases hwritable b hchanged with ⟨p, hp, hpb, hbp⟩ | houtside
  · -- the block that is written to is not the free one
    have hpq : p ≠ q := by
      rintro rfl
      exact h.notMem_of_free hperm hq hp
    have hapart := (h.isBlock hp).apart h.separate hqBlock hpq
    omega
  · obtain ⟨c, hc, hcq, hqc⟩ := hqBlock.inChunk
    exact houtside c hc ⟨by omega, by omega⟩

/-- A byte that a client writes. -/
theorem Owned.write (h : Owned s held) {address : ℕ} (byte : UInt8)
    (hwritable : (∃ block ∈ held, block ≤ address ∧ address < block + sizeofBlock blockSize) ∨
      ∀ chunk ∈ s.chunks, ¬ InChunk blockSize blocksPerChunk chunk address) :
    Owned ({ s with memory := Function.update s.memory address byte } :
      MemoryPool blockSize blocksPerChunk) held := by
  apply h.writes
  intro a hchanged
  by_cases ha : a = address
  · rw [ha]
    exact hwritable
  · exact absurd (Function.update_of_ne ha _ _) hchanged

/-- A held block is not the null pointer. -/
theorem Owned.zero_notMem (h : Owned s held) : 0 ∉ held := by
  intro hmem
  exact (h.isBlock hmem).ne_zero h.separate rfl

end Owned

/-! ### Runs -/

section Runs

variable {u : ℕ → ℕ → ℕ} {s t : System blockSize blocksPerChunk}

/-- What a call of `allocate` does to the system. -/
theorem step_allocate (h : Owned s.pool s.held) (hpos : 0 < blocksPerChunk) {newChunk : ℕ}
    (hstep : step u s (.allocate newChunk) = some t) :
    t = s ∨ ∃ ptr pool, s.pool.AlignedAlloc newChunk ∧ Owned pool (ptr :: s.held) ∧
      ((s.pool.freeBlocks ≠ 0 ∧ pool.chunks = s.pool.chunks) ∨
        (s.pool.freeBlocks = 0 ∧ pool.chunks = s.pool.chunks ++ [newChunk])) ∧
      t = { pool := pool, held := ptr :: s.held, peak := max s.peak (s.held.length + 1) } := by
  simp only [step] at hstep
  split_ifs at hstep with halloc
  rcases h.allocate hpos halloc with ⟨ptr, pool, hallocate, howned, hchunks⟩ | hallocate
  · rw [hallocate] at hstep
    exact .inr ⟨ptr, pool, halloc, howned, hchunks, (Option.some.inj hstep).symm⟩
  · rw [hallocate] at hstep
    exact .inl (Option.some.inj hstep).symm

/-- What a call of `deallocate` does to the system. -/
theorem step_deallocate (h : Owned s.pool s.held) {ptr : ℕ}
    (hstep : step u s (.deallocate ptr) = some t) :
    t = s ∨ (ptr ∈ s.held ∧ s.pool.isAddressInPool u ptr = true ∧ t = { s with
      pool := { s.pool with
        memory := setNext s.pool.memory ptr s.pool.freeBlocks, freeBlocks := ptr }
      held := s.held.erase ptr }) := by
  simp only [step] at hstep
  split_ifs at hstep with hheld
  unfold deallocate at hstep
  by_cases hnull : ptr = 0
  · -- null is freed without an effect
    rw [if_pos hnull, hnull] at hstep
    dsimp only at hstep
    rw [List.erase_of_not_mem h.zero_notMem] at hstep
    exact .inl (Option.some.inj hstep).symm
  · rw [if_neg hnull] at hstep
    split_ifs at hstep with haccepted
    · exact .inr ⟨hheld.resolve_left hnull, haccepted, (Option.some.inj hstep).symm⟩
    · exact .inl (Option.some.inj hstep).symm

/-- **One step keeps the blocks apart.** -/
theorem owned_step (hpos : 0 < blocksPerChunk) {a : Action} (h : Owned s.pool s.held)
    (hstep : step u s a = some t) : Owned t.pool t.held := by
  cases a with
  | allocate newChunk =>
    rcases step_allocate h hpos hstep with rfl | ⟨ptr, pool, _, howned, _, rfl⟩
    · exact h
    · exact howned
  | deallocate ptr =>
    rcases step_deallocate h hstep with rfl | ⟨hheld, _, rfl⟩
    · exact h
    · exact h.pushBlock hheld
  | write address byte =>
    simp only [step] at hstep
    split_ifs at hstep with hwritable
    obtain rfl := Option.some.inj hstep
    exact h.write byte hwritable

/-- **No block is handed out twice**, in any run.  The chain of the free blocks ends and repeats
nothing, the free blocks and the held ones are all blocks of all chunks, and no block is both; what
`allocate` returns is a block of the pool that nobody holds; and where `aligned_alloc` fails,
`allocate` throws and changes nothing. -/
theorem blocks_exclusive (hpos : 0 < blocksPerChunk) {memory : ByteMemory}
    (h : Reaches (step u) (fun _ _ => True) (System.create memory) s) :
    (∃ free, Chain (next s.pool.memory) 0 s.pool.freeBlocks free ∧ free.Nodup ∧
      (∀ p ∈ free, IsBlock blockSize blocksPerChunk s.pool.chunks p) ∧
      free.Disjoint s.held ∧ s.held.Nodup ∧
      (free ++ s.held).Perm (blocks blockSize blocksPerChunk s.pool.chunks) ∧
      free.length + s.held.length = blocksPerChunk * s.pool.chunks.length) ∧
    (∀ newChunk ptr pool, s.pool.AlignedAlloc newChunk →
      s.pool.allocate newChunk = (.ok ptr, pool) →
      IsBlock blockSize blocksPerChunk pool.chunks ptr ∧ ptr ∉ s.held) ∧
    (s.pool.freeBlocks = 0 → s.pool.allocate 0 = (.error .badAlloc, s.pool)) := by
  have hkeep : ∀ (s : System blockSize blocksPerChunk) a t, Owned s.pool s.held → True →
      step u s a = some t → Owned t.pool t.held := by
    intro s a t hinv _ hstep
    exact owned_step hpos hinv hstep
  have howned := h.invariant hkeep (owned_create memory)
  refine ⟨?_, ?_, ?_⟩
  · obtain ⟨free, hchain, hperm⟩ := howned.free
    obtain ⟨hfree, hheld, hdisjoint⟩ := List.nodup_append'.mp (howned.nodup hperm)
    refine ⟨free, hchain, hfree, ?_, hdisjoint, hheld, hperm, ?_⟩
    · intro p hp
      exact isBlock_of_perm hperm (List.mem_append_left s.held hp)
    · rw [← length_blocks, ← hperm.length_eq, List.length_append]
  · intro newChunk ptr pool halloc hallocate
    rcases howned.allocate hpos halloc with ⟨ptr', pool', heq, hnew, _⟩ | heq
    · rw [heq] at hallocate
      obtain ⟨hptr, rfl⟩ := Prod.mk.inj hallocate
      obtain rfl := Except.ok.inj hptr
      exact ⟨hnew.isBlock List.mem_cons_self, hnew.notMem_of_cons⟩
    · rw [heq] at hallocate
      cases hallocate
  · intro hfree
    rw [MemoryPool.allocate, if_pos hfree]
    rfl

end Runs

/-! ### A run -/

/-- A client is given both blocks of a chunk, frees the first one, overwrites the link in the second
one, and is given the first one again. -/
def reuseFirst : List Action :=
  [.allocate 4096, .allocate 0, .deallocate 4096, .write 4104 255, .allocate 0]

theorem blocks_exclusive_reuseFirst :
    ∃ s : System 8 2,
      run (step fun _ _ => 0) (fun _ _ => True) (System.create fun _ => 0) reuseFirst = some s ∧
      s.held = [4096, 4104] ∧ s.held.Nodup := by
  obtain ⟨s, hs, hheld⟩ : ∃ s : System 8 2,
      run (step fun _ _ => 0) (fun _ _ => True) (System.create fun _ => 0) reuseFirst = some s ∧
      s.held = [4096, 4104] := ⟨_, rfl, rfl⟩
  obtain ⟨_, _, _, _, _, hnodup, _⟩ := (blocks_exclusive Nat.two_pos (reaches_of_run hs)).1
  exact ⟨s, hs, hheld, hnodup⟩

end NetSentry.MemoryPool
