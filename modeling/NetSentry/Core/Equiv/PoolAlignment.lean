import Mathlib.Data.Nat.Prime.Basic
import NetSentry.Core.Equiv.ObjectPool

/-!
# Where the objects of a pool are aligned

`allocateChunk` asks for memory at a multiple of 16, whatever the alignment of the objects is, and
for as many bytes as the blocks take, which need not be a multiple of 16.

* `wellAligned_iff`: every object is constructed at a multiple of its alignment, and the size is a
  multiple of the alignment asked for, exactly when the objects need no more than 16 bytes of
  alignment and the number or the size of the blocks is even enough.
* `not_forall_wellAligned`: objects of 8 bytes in chunks of one, and objects for a cache line.

`align_dvd_blockAt_iff` is why: a block is as well aligned as its chunk, since the size of a block
is a multiple of the alignment of the objects in it.
-/

namespace NetSentry.ObjectPool

open Transition MemoryPool

/-! ### The statement -/

/-- The size and the alignment of a type. -/
structure TypeLayout where
  size : ℕ
  align : ℕ
  size_pos : 0 < size
  align_pow : ∃ k, align = 2 ^ k
  align_dvd : align ∣ size

variable {T : TypeLayout} {blocksPerChunk : ℕ}

/-- `aligned_alloc` returns memory of the alignment that it is asked for. -/
def RespectsAlignment (_ : World T.size blocksPerChunk) : Action → Prop
  | .call (.allocate newChunk _ _) => chunkAlignment ∣ newChunk
  | _ => True

/-- In every run each object is constructed at a multiple of the alignment of its type. -/
def ConstructsAligned (T : TypeLayout) (blocksPerChunk : ℕ) : Prop :=
  ∀ (u : ℕ → ℕ → ℕ) (memory : ByteMemory) (w : World T.size blocksPerChunk),
    Reaches (step u) RespectsAlignment (World.initial memory) w →
    ∀ newChunk, w.AlignedAlloc newChunk → chunkAlignment ∣ newChunk →
    ∀ ptr pool, w.pool.allocate newChunk = (.ok ptr, pool) → T.align ∣ ptr

/-- What the memory of a pool is expected to be. -/
structure WellAligned (T : TypeLayout) (blocksPerChunk : ℕ) : Prop where
  objects : ConstructsAligned T blocksPerChunk
  size : chunkAlignment ∣ allocSize T.size blocksPerChunk

/-- A chunk fits into the address space, behind the first address of its alignment. -/
def Fits (T : TypeLayout) (blocksPerChunk : ℕ) : Prop :=
  blockAt T.size chunkAlignment blocksPerChunk < 2 ^ 64

/-! ### Blocks -/

theorem eight_dvd_sizeofBlock (size : ℕ) : 8 ∣ sizeofBlock size := Nat.dvd_mul_left 8 _

/-- **The size of a block** is a multiple of the alignment of the objects in it. -/
theorem align_dvd_sizeofBlock (T : TypeLayout) : T.align ∣ sizeofBlock T.size := by
  obtain ⟨k, hk⟩ := T.align_pow
  rcases Nat.lt_or_ge 3 k with hlarge | hsmall
  · -- the objects are whole numbers of pointers, and there is no padding
    have height : 8 ∣ T.size := by
      apply Nat.dvd_trans _ T.align_dvd
      rw [hk]
      exact Nat.pow_dvd_pow 2 hlarge.le
    have hpos := T.size_pos
    have hsame : sizeofBlock T.size = T.size := by
      unfold sizeofBlock
      omega
    rw [hsame]
    exact T.align_dvd
  · apply Nat.dvd_trans _ (eight_dvd_sizeofBlock T.size)
    rw [hk]
    exact Nat.pow_dvd_pow 2 hsmall

/-- **A block** is as well aligned as its chunk. -/
theorem align_dvd_blockAt_iff (T : TypeLayout) (chunk i : ℕ) :
    T.align ∣ blockAt T.size chunk i ↔ T.align ∣ chunk :=
  (Nat.dvd_add_iff_left ((align_dvd_sizeofBlock T).mul_left i)).symm

/-- Memory at a multiple of 16 is aligned for objects that need no more. -/
theorem align_dvd_chunkAlignment_iff (T : TypeLayout) :
    T.align ∣ chunkAlignment ↔ T.align ≤ 16 := by
  obtain ⟨k, hk⟩ := T.align_pow
  have hpow : chunkAlignment = 2 ^ 4 := rfl
  rw [hk, hpow, Nat.pow_dvd_pow_iff_le_right (by decide), show 16 = 2 ^ 4 from rfl,
    Nat.pow_le_pow_iff_right (by decide)]

/-! ### Runs -/

section Runs

variable {u : ℕ → ℕ → ℕ} {w w' : World T.size blocksPerChunk} {newChunk : ℕ}

/-- The chunks have the alignment that was asked for. -/
structure AlignedInv (w : World T.size blocksPerChunk) : Prop where
  inv : Inv w
  chunks : ∀ chunk ∈ w.pool.chunks, chunkAlignment ∣ chunk

/-- A call of `allocate` leaves the chunks, or adds the new one. -/
theorem chunks_allocate (hpos : 0 < blocksPerChunk) (h : AlignedInv w)
    (halloc : w.AlignedAlloc newChunk) (haligned : chunkAlignment ∣ newChunk) :
    ∀ chunk ∈ (w.pool.allocate newChunk).2.chunks, chunkAlignment ∣ chunk := by
  rcases h.inv.owned.allocate hpos halloc.1 with ⟨ptr, pool, heq, _, hchunks⟩ | heq
  · rw [heq]
    rcases hchunks with ⟨_, hsame⟩ | ⟨_, hnew⟩
    · show ∀ chunk ∈ pool.chunks, _
      rw [hsame]
      exact h.chunks
    · show ∀ chunk ∈ pool.chunks, _
      rw [hnew]
      intro chunk hchunk
      rcases List.mem_append.mp hchunk with hold | hadded
      · exact h.chunks chunk hold
      · exact List.mem_singleton.mp hadded ▸ haligned
  · rw [heq]
    exact h.chunks

theorem chunks_worldAllocate (w : World T.size blocksPerChunk) (newChunk : ℕ)
    (written : ByteMemory) (throws : Bool) :
    (w.allocate newChunk written throws).2.pool.chunks = (w.pool.allocate newChunk).2.chunks := by
  unfold World.allocate
  rcases w.pool.allocate newChunk with ⟨e | ptr, pool⟩
  · rfl
  · dsimp only [World.construct]
    split_ifs <;> rfl

/-- A call of `deallocate` leaves the chunks. -/
theorem chunks_worldDeallocate (w : World T.size blocksPerChunk) (u : ℕ → ℕ → ℕ) (object : ℕ)
    (written : ByteMemory) (throws : Bool) :
    (w.deallocate u object written throws).2.pool.chunks = w.pool.chunks := by
  by_cases hnull : object = 0
  · rw [World.deallocate, if_pos hnull]
  · rcases deallocate_cases (w := w) hnull with ⟨_, e, heq⟩ | ⟨_, _, heq⟩
    · rw [heq]
      rfl
    · rw [heq]
      rfl

/-- **One step keeps the alignment of the chunks.** -/
theorem alignedInv_step (hpos : 0 < blocksPerChunk) {a : Action} (h : AlignedInv w)
    (hguard : RespectsAlignment w a) (hstep : step u w a = some w') : AlignedInv w' := by
  refine ⟨inv_step T.size_pos hpos h.inv hstep, ?_⟩
  cases a with
  | call call =>
    simp only [step] at hstep
    split_ifs at hstep with hadmits
    obtain rfl := Option.some.inj hstep
    cases call with
    | allocate newChunk written throws =>
      show ∀ chunk ∈ (w.allocate newChunk written throws).2.pool.chunks, _
      rw [chunks_worldAllocate]
      exact chunks_allocate hpos h hadmits hguard
    | deallocate object written throws =>
      show ∀ chunk ∈ (w.deallocate u object written throws).2.pool.chunks, _
      rw [chunks_worldDeallocate]
      exact h.chunks
  | construct object =>
    simp only [step] at hstep
    split_ifs at hstep
    obtain rfl := Option.some.inj hstep
    exact h.chunks
  | write address byte =>
    simp only [step] at hstep
    split_ifs at hstep
    obtain rfl := Option.some.inj hstep
    exact h.chunks

/-- What is handed out is a block of a chunk that was asked for. -/
theorem exists_chunk_of_allocate (hpos : 0 < blocksPerChunk) (h : AlignedInv w)
    (halloc : w.AlignedAlloc newChunk) (haligned : chunkAlignment ∣ newChunk) {ptr : ℕ}
    {pool : MemoryPool T.size blocksPerChunk} (hok : w.pool.allocate newChunk = (.ok ptr, pool)) :
    ∃ chunk i, ptr = blockAt T.size chunk i ∧ chunkAlignment ∣ chunk ∧ chunk ≠ 0 ∧
      blockAt T.size chunk blocksPerChunk < 2 ^ 64 := by
  have hchunks := chunks_allocate hpos h halloc haligned
  rcases h.inv.owned.allocate hpos halloc.1 with ⟨ptr', pool', heq, howned, _⟩ | heq
  · rw [heq] at hok hchunks
    obtain ⟨hptr, rfl⟩ := Prod.mk.inj hok
    obtain rfl := Except.ok.inj hptr
    obtain ⟨chunk, hchunk, i, _, hat⟩ := howned.isBlock List.mem_cons_self
    exact ⟨chunk, i, hat, hchunks chunk hchunk, howned.separate.ne_zero chunk hchunk,
      howned.separate.lt chunk hchunk⟩
  · rw [heq] at hok
    cases hok

end Runs

/-! ### The two conditions -/

/-- **The objects** are aligned when they need no more than 16 bytes, or when there is no chunk. -/
theorem constructsAligned_iff (T : TypeLayout) (hpos : 0 < blocksPerChunk) :
    ConstructsAligned T blocksPerChunk ↔ T.align ≤ 16 ∨ ¬ Fits T blocksPerChunk := by
  rw [← align_dvd_chunkAlignment_iff]
  constructor
  · intro h
    by_cases hfits : Fits T blocksPerChunk
    · left
      -- the first chunk is at the first address of its alignment
      exact h (fun _ _ => 0) (fun _ => 0) _ (.refl _) chunkAlignment
        ⟨alignedAlloc_iff.mpr (.inr ⟨hfits, nofun⟩), .inr nofun⟩ (Nat.dvd_refl _)
        chunkAlignment _ rfl
    · exact .inr hfits
  · intro hcond u memory w hreach newChunk halloc haligned ptr pool hok
    have hinv : AlignedInv w :=
      hreach.invariant (fun _ _ _ hinv hguard hstep => alignedInv_step hpos hinv hguard hstep)
        ⟨inv_initial memory, nofun⟩
    obtain ⟨chunk, i, rfl, hchunk, hne, hlt⟩ :=
      exists_chunk_of_allocate hpos hinv halloc haligned hok
    rw [align_dvd_blockAt_iff]
    rcases hcond with hdvd | hfits
    · exact hdvd.trans hchunk
    · -- a chunk would have to begin before the first address of its alignment
      exfalso
      apply hfits
      have hle : chunkAlignment ≤ chunk := Nat.le_of_dvd (Nat.pos_of_ne_zero hne) hchunk
      unfold Fits
      unfold blockAt at hlt ⊢
      omega

/-- **The size of a chunk** is a multiple of 16 when there are an even number of blocks or each of
them is. -/
theorem chunkAlignment_dvd_allocSize_iff (size blocksPerChunk : ℕ) :
    chunkAlignment ∣ allocSize size blocksPerChunk
      ↔ 2 ∣ blocksPerChunk ∨ chunkAlignment ∣ sizeofBlock size := by
  obtain ⟨m, hm⟩ := eight_dvd_sizeofBlock size
  have halign : chunkAlignment = 8 * 2 := rfl
  rw [allocSize, Nat.dvd_mod_iff (by decide), hm, halign, Nat.mul_assoc,
    Nat.mul_dvd_mul_iff_left (by decide), Nat.mul_dvd_mul_iff_left (by decide),
    Nat.prime_two.dvd_mul]
  exact or_comm

/-- **When the memory of a pool is as expected.** -/
theorem wellAligned_iff (T : TypeLayout) (hpos : 0 < blocksPerChunk) :
    WellAligned T blocksPerChunk
      ↔ (T.align ≤ 16 ∨ ¬ Fits T blocksPerChunk) ∧
        (2 ∣ blocksPerChunk ∨ chunkAlignment ∣ sizeofBlock T.size) := by
  rw [← constructsAligned_iff T hpos, ← chunkAlignment_dvd_allocSize_iff]
  exact ⟨fun h => ⟨h.objects, h.size⟩, fun h => ⟨h.1, h.2⟩⟩

/-- A number of 64 bits. -/
def wordLayout : TypeLayout where
  size := 8
  align := 8
  size_pos := by decide
  align_pow := ⟨3, rfl⟩
  align_dvd := Nat.dvd_refl 8

/-- An object for a cache line. -/
def lineLayout : TypeLayout where
  size := 64
  align := 64
  size_pos := by decide
  align_pow := ⟨6, rfl⟩
  align_dvd := Nat.dvd_refl 64

theorem wellAligned_words : WellAligned wordLayout 128 :=
  (wellAligned_iff wordLayout (by decide)).mpr ⟨.inl (by decide), .inl (by decide)⟩

/-- The chunk of a single number has 8 bytes, and an object for a cache line may be constructed 16
bytes from the beginning of one. -/
theorem not_forall_wellAligned :
    (¬ ∀ (T : TypeLayout) (blocksPerChunk : ℕ), 0 < blocksPerChunk →
      ConstructsAligned T blocksPerChunk) ∧
    ¬ ∀ (T : TypeLayout) (blocksPerChunk : ℕ), 0 < blocksPerChunk →
      chunkAlignment ∣ allocSize T.size blocksPerChunk := by
  constructor
  · intro h
    have hdvd : 64 ∣ 16 := h lineLayout 128 (by decide) (fun _ _ => 0) (fun _ => 0) _ (.refl _) 16
      ⟨by decide, .inr nofun⟩ (by decide) 16 _ rfl
    revert hdvd
    decide
  · intro h
    have hdvd := h wordLayout 1 (by decide)
    revert hdvd
    decide

end NetSentry.ObjectPool
