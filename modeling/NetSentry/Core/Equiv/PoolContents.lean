import NetSentry.Core.Equiv.MemoryPool
import NetSentry.Lib.KeyedFold
import NetSentry.Lib.Progress

/-!
# What clients write stays

The links of the free list are in the free blocks alone: a block that a client keeps holds what was
written to it last, whatever is allocated, freed and written besides, and so does the memory that is
not the pool's (`contents_kept`).

* `linkBlocks_of_not_inChunk`: linking the blocks of a chunk changes nothing beside the chunk.
* `memory_step`: a step changes no byte that is left to a client, unless it writes the byte.
-/

namespace NetSentry.MemoryPool

open Transition KeyedFold

variable {blockSize blocksPerChunk : ℕ}

/-- What clients write in a run: the addresses, with the bytes. -/
def writes (as : List Action) : List (ℕ × UInt8) :=
  as.filterMap fun
    | .write address byte => some (address, byte)
    | _ => none

/-- The address is one of the block. -/
def InBlock (blockSize p address : ℕ) : Prop := p ≤ address ∧ address < p + sizeofBlock blockSize

/-- The address is in no chunk. -/
def OutsidePool (s : System blockSize blocksPerChunk) (address : ℕ) : Prop :=
  ∀ chunk ∈ s.pool.chunks, ¬ InChunk blockSize blocksPerChunk chunk address

/-! ### What the pool writes -/

theorem setNext_apply_of_apart (memory : ByteMemory) {block address : ℕ} (value : ℕ)
    (h : address < block ∨ block + 8 ≤ address) :
    setNext memory block value address = memory address :=
  ByteMemory.store_apply_of_disjoint value h

section Writes

-- the lemma above says all that matters of it
attribute [local irreducible] setNext

/-- **Linking the blocks of a chunk** changes nothing beside the chunk. -/
theorem linkBlocks_of_not_inChunk (memory : ByteMemory) {chunk address : ℕ}
    (hpos : 0 < blocksPerChunk) (h : ¬ InChunk blockSize blocksPerChunk chunk address) :
    linkBlocks blockSize blocksPerChunk chunk memory address = memory address := by
  obtain ⟨n, rfl⟩ : ∃ n, blocksPerChunk = n + 1 := ⟨blocksPerChunk - 1, by omega⟩
  have hsize := eight_le_sizeofBlock blockSize
  -- the link of each block is in the chunk
  have hapart : ∀ i < n + 1,
      address < blockAt blockSize chunk i ∨ blockAt blockSize chunk i + 8 ≤ address := by
    intro i hi
    have hle := le_blockAt blockSize chunk i
    have hend := blockAt_add_le blockSize chunk hi
    rcases not_and_or.mp h with hbefore | hafter
    · exact .inl (by omega)
    · exact .inr (by omega)
  have hloop : ∀ k ≤ n, ((List.range k).foldl (fun memory i =>
      setNext memory (blockAt blockSize chunk i) (blockAt blockSize chunk (i + 1))) memory) address
        = memory address := by
    intro k hk
    induction k with
    | zero => rfl
    | succ k ih =>
      rw [List.range_succ, List.foldl_append]
      exact (setNext_apply_of_apart _ _ (hapart k (by omega))).trans (ih (by omega))
  rw [linkBlocks_succ]
  exact (setNext_apply_of_apart _ _ (hapart n (Nat.lt_succ_self n))).trans (hloop n (Nat.le_refl n))

/-- `allocate` only writes in a chunk that is new. -/
theorem memory_allocate {s pool : MemoryPool blockSize blocksPerChunk} (hpos : 0 < blocksPerChunk)
    {newChunk ptr address : ℕ} (hallocate : s.allocate newChunk = (.ok ptr, pool))
    (h : newChunk ≠ 0 → pool.chunks = s.chunks ++ [newChunk] →
      ¬ InChunk blockSize blocksPerChunk newChunk address) :
    pool.memory address = s.memory address := by
  unfold MemoryPool.allocate at hallocate
  by_cases hfree : s.freeBlocks = 0
  · rw [if_pos hfree] at hallocate
    unfold MemoryPool.allocateChunk at hallocate
    by_cases hne : newChunk = 0
    · rw [if_pos hne] at hallocate
      cases hallocate
    · rw [if_neg hne] at hallocate
      obtain ⟨-, rfl⟩ := Prod.mk.inj hallocate
      exact linkBlocks_of_not_inChunk s.memory hpos (h hne rfl)
  · rw [if_neg hfree] at hallocate
    obtain ⟨-, rfl⟩ := Prod.mk.inj hallocate
    rfl

end Writes

/-! ### Steps -/

variable {u : ℕ → ℕ → ℕ} {s t : System blockSize blocksPerChunk}

/-- The chunks that there are stay. -/
theorem chunks_step (hpos : 0 < blocksPerChunk) {a : Action} (h : Owned s.pool s.held)
    (hstep : step u s a = some t) {chunk : ℕ} (hchunk : chunk ∈ s.pool.chunks) :
    chunk ∈ t.pool.chunks := by
  cases a with
  | allocate newChunk =>
    rcases step_allocate h hpos hstep with rfl | ⟨ptr, pool, -, -, hchunks, rfl⟩
    · exact hchunk
    · rcases hchunks with ⟨-, hsame⟩ | ⟨-, hnew⟩
      · exact hsame ▸ hchunk
      · exact hnew ▸ List.mem_append_left [newChunk] hchunk
  | deallocate ptr =>
    rcases step_deallocate h hstep with rfl | ⟨-, -, rfl⟩
    · exact hchunk
    · exact hchunk
  | write address byte =>
    simp only [step] at hstep
    split_ifs at hstep
    obtain rfl := Option.some.inj hstep
    exact hchunk

/-- A block that is not freed is still held. -/
theorem held_step (hpos : 0 < blocksPerChunk) {a : Action} (h : Owned s.pool s.held)
    (hstep : step u s a = some t) {p : ℕ} (hp : p ∈ s.held) (ha : a ≠ .deallocate p) :
    p ∈ t.held := by
  cases a with
  | allocate newChunk =>
    rcases step_allocate h hpos hstep with rfl | ⟨ptr, pool, -, -, -, rfl⟩
    · exact hp
    · exact List.mem_cons_of_mem ptr hp
  | deallocate ptr =>
    rcases step_deallocate h hstep with rfl | ⟨-, -, rfl⟩
    · exact hp
    · -- it is another block that is freed
      have hne : p ≠ ptr := by
        rintro rfl
        exact ha rfl
      exact (List.mem_erase_of_ne hne).mpr hp
  | write address byte =>
    simp only [step] at hstep
    split_ifs at hstep
    obtain rfl := Option.some.inj hstep
    exact hp

/-- **What a step does to a byte** of a block that is kept, or outside the pool. -/
theorem memory_step (hpos : 0 < blocksPerChunk) {a : Action} (h : Owned s.pool s.held)
    (hstep : step u s a = some t) {address : ℕ}
    (haddress : (∃ p ∈ s.held, a ≠ .deallocate p ∧ InBlock blockSize p address) ∨
      OutsidePool t address) :
    t.pool.memory address = (lastOf (writes [a]) address).getD (s.pool.memory address) := by
  have hsize := eight_le_sizeofBlock blockSize
  cases a with
  | allocate newChunk =>
    show t.pool.memory address = s.pool.memory address
    simp only [step] at hstep
    split_ifs at hstep with halloc
    cases hallocate : s.pool.allocate newChunk with
    | mk result pool =>
      rw [hallocate] at hstep
      cases result with
      | error e =>
        rcases h.allocate hpos halloc with ⟨ptr, pool', hok, -⟩ | hthrows
        · rw [hallocate] at hok
          cases hok
        · obtain rfl := Option.some.inj hstep
          rw [hallocate] at hthrows
          rw [(Prod.mk.inj hthrows).2]
      | ok ptr =>
        have ht := Option.some.inj hstep
        rw [← ht]
        apply memory_allocate hpos hallocate
        intro hne hchunks hnew
        rcases haddress with ⟨p, hp, -, hblock⟩ | houtside
        · -- the chunk of the block lies apart from the new one
          obtain ⟨chunk, hchunk, hcp, hpc⟩ := (h.isBlock hp).inChunk
          have hapart := ((alignedAlloc_iff.mp halloc).resolve_left hne).2 chunk hchunk
          unfold Apart at hapart
          unfold InChunk at hnew
          unfold InBlock at hblock
          omega
        · apply houtside newChunk _ hnew
          rw [← ht]
          exact hchunks ▸ List.mem_append_right s.pool.chunks List.mem_cons_self
  | deallocate ptr =>
    show t.pool.memory address = s.pool.memory address
    rcases step_deallocate h hstep with rfl | ⟨hptr, -, rfl⟩
    · rfl
    · apply setNext_apply_of_apart
      rcases haddress with ⟨p, hp, hne, hle, hlt⟩ | houtside
      · have hpne : p ≠ ptr := by
          rintro rfl
          exact hne rfl
        have hapart := (h.isBlock hp).apart h.separate (h.isBlock hptr) hpne
        omega
      · obtain ⟨chunk, hchunk, hcp, hpc⟩ := (h.isBlock hptr).inChunk
        by_contra hin
        exact houtside chunk hchunk ⟨by omega, by omega⟩
  | write written byte =>
    simp only [step] at hstep
    split_ifs at hstep
    obtain rfl := Option.some.inj hstep
    show Function.update s.pool.memory written byte address
      = (lastOf [(written, byte)] address).getD (s.pool.memory address)
    rw [lastOf_singleton, Function.update_apply]
    by_cases hwritten : address = written
    · rw [if_pos hwritten, if_pos hwritten.symm]
      rfl
    · rw [if_neg hwritten, if_neg (Ne.symm hwritten)]
      rfl

/-! ### Runs -/

/-- What is written in a run and then in one more step. -/
theorem writes_append (as : List Action) (a : Action) :
    writes (as ++ [a]) = writes as ++ writes [a] :=
  List.filterMap_append

/-- **What clients write stays**, in every run.  A block that is held at the beginning of a run, and
not freed in it, is held at its end; and each of its bytes, as each byte outside the pool, is the
one that was written to it last, or what it was where none was written. -/
theorem contents_kept (hpos : 0 < blocksPerChunk) {memory : ByteMemory}
    (h : Reaches (step u) (fun _ _ => True) (System.create memory) s) {as : List Action}
    (hpath : Path (step u) (fun _ _ => True) s as t) :
    (∀ p ∈ s.held, .deallocate p ∉ as → p ∈ t.held) ∧
    ∀ address, ((∃ p ∈ s.held, .deallocate p ∉ as ∧ InBlock blockSize p address) ∨
        OutsidePool t address) →
      t.pool.memory address = (lastOf (writes as) address).getD (s.pool.memory address) := by
  have hkeep : ∀ (s : System blockSize blocksPerChunk) a t, Owned s.pool s.held → True →
      step u s a = some t → Owned t.pool t.held :=
    fun _ _ _ howned _ hstep => owned_step hpos howned hstep
  have hstart := h.invariant hkeep (owned_create memory)
  induction hpath with
  | nil => exact ⟨fun p hp _ => hp, fun address _ => rfl⟩
  | @append as t v a hpath _ hstep ih =>
    have howned : Owned t.pool t.held := hpath.reaches.invariant hkeep hstart
    obtain ⟨hheld, hmemory⟩ := ih
    have hkept : ∀ p, .deallocate p ∉ as ++ [a] → .deallocate p ∉ as ∧ a ≠ .deallocate p := by
      intro p hp
      refine ⟨fun hmem => hp (List.mem_append_left [a] hmem), ?_⟩
      rintro rfl
      exact hp (List.mem_append_right as List.mem_cons_self)
    constructor
    · intro p hp hnot
      exact held_step hpos howned hstep (hheld p hp (hkept p hnot).1) (hkept p hnot).2
    · intro address haddress
      have hbefore : t.pool.memory address
          = (lastOf (writes as) address).getD (s.pool.memory address) := by
        apply hmemory
        rcases haddress with ⟨p, hp, hnot, hblock⟩ | houtside
        · exact .inl ⟨p, hp, (hkept p hnot).1, hblock⟩
        · exact .inr fun chunk hchunk => houtside chunk (chunks_step hpos howned hstep hchunk)
      have hstays : (∃ p ∈ t.held, a ≠ .deallocate p ∧ InBlock blockSize p address) ∨
          OutsidePool v address := by
        rcases haddress with ⟨p, hp, hnot, hblock⟩ | houtside
        · exact .inl ⟨p, hheld p hp (hkept p hnot).1, (hkept p hnot).2, hblock⟩
        · exact .inr houtside
      rw [memory_step hpos howned hstep hstays, hbefore, writes_append, lastOf_append]
      cases lastOf (writes [a]) address <;> rfl

/-- A client writes to the second block while the first one is freed, handed out again, and another
chunk is needed. -/
def writeBesideReuse : List Action :=
  [.write 4104 7, .deallocate 4096, .allocate 0, .allocate 8192, .write 4096 9]

theorem contents_kept_writeBesideReuse :
    ∃ s t : System 8 2,
      run (step fun _ _ => 0) (fun _ _ => True) (System.create fun _ => 0)
        [.allocate 4096, .allocate 0] = some s ∧
      run (step fun _ _ => 0) (fun _ _ => True) s writeBesideReuse = some t ∧
      4104 ∈ t.held ∧ t.pool.memory 4104 = 7 := by
  obtain ⟨s, t, hs, ht, hheld⟩ : ∃ s t : System 8 2,
      run (step fun _ _ => 0) (fun _ _ => True) (System.create fun _ => 0)
        [.allocate 4096, .allocate 0] = some s ∧
      run (step fun _ _ => 0) (fun _ _ => True) s writeBesideReuse = some t ∧
      s.held = [4104, 4096] := ⟨_, _, rfl, rfl, rfl⟩
  have hmem : 4104 ∈ s.held := hheld ▸ List.mem_cons_self
  have hnot : Action.deallocate 4104 ∉ writeBesideReuse := by simp [writeBesideReuse]
  obtain ⟨hkept, hmemory⟩ := contents_kept Nat.two_pos (reaches_of_run hs) (path_of_run ht)
  exact ⟨s, t, hs, ht, hkept 4104 hmem hnot,
    hmemory 4104 (.inl ⟨4104, hmem, hnot, Nat.le_refl _, by decide⟩)⟩

end NetSentry.MemoryPool
