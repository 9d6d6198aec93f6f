import NetSentry.Core.Equiv.MemoryPool

/-!
# The addresses that `deallocate` accepts

`isAddressInPool` subtracts two pointers to blocks, which counts in blocks, and takes the remainder
by the size of a block in bytes.  Of the blocks of a chunk it accepts those whose index is a
multiple of that size, and of the other addresses in a chunk it may accept any.

* `isAddressInPool_iff`: the addresses for which it is right.
* `reuse_exact`: in every run just these blocks can be freed, a new chunk is only requested while
  all blocks are held, and there are no more chunks than the blocks held at one time need.  A block
  that could not be freed counts as held.
-/

namespace NetSentry.MemoryPool

open Transition

variable {blockSize blocksPerChunk : ℕ}

/-- An address is that of a block whose index in its chunk is a multiple of `sizeof(Block)`. -/
def AtMultiple (blockSize blocksPerChunk : ℕ) (chunks : List ℕ) (p : ℕ) : Prop :=
  ∃ c ∈ chunks, ∃ k < blocksPerChunk, p = blockAt blockSize c k ∧ sizeofBlock blockSize ∣ k

section Addresses

variable {chunks : List ℕ} {u : ℕ → ℕ → ℕ} {c p : ℕ}

/-- Outside all chunks the answer is no. -/
theorem isAddressIn_of_forall_not (h : ∀ c ∈ chunks, ¬ InChunk blockSize blocksPerChunk c p) :
    isAddressIn blockSize blocksPerChunk u p chunks = false := by
  induction chunks with
  | nil => rfl
  | cons c chunks ih =>
    rw [isAddressIn, if_neg (show ¬ (_ ∧ _) from h c List.mem_cons_self)]
    exact ih fun d hd => h d (List.mem_cons_of_mem c hd)

/-- In a chunk the answer depends on the distance to its start. -/
theorem isAddressIn_of_inChunk (hsep : Separate blockSize blocksPerChunk chunks) (hc : c ∈ chunks)
    (hp : InChunk blockSize blocksPerChunk c p) :
    isAddressIn blockSize blocksPerChunk u p chunks
      = decide (blockDiff blockSize u p c % sizeofBlock blockSize = 0) := by
  have hpairwise := hsep.pairwise
  clear hsep
  induction chunks with
  | nil => cases hc
  | cons d chunks ih =>
    obtain ⟨hapart, hrest⟩ := List.pairwise_cons.mp hpairwise
    rw [isAddressIn]
    rcases List.mem_cons.mp hc with rfl | hmem
    · rw [if_pos (show c ≤ p ∧ _ from hp)]
    · -- the first chunk lies apart from the one with the address
      have hnot : ¬ (d ≤ p ∧ p < blockAt blockSize d blocksPerChunk) := by
        have hdc := hapart c hmem
        unfold Apart at hdc
        unfold InChunk at hp
        omega
      rw [if_neg hnot]
      exact ih hmem hrest

theorem blockDiff_blockAt (u : ℕ → ℕ → ℕ) (c k : ℕ) :
    blockDiff blockSize u (blockAt blockSize c k) c = k := by
  have hsize := eight_le_sizeofBlock blockSize
  have hsub : blockAt blockSize c k - c = k * sizeofBlock blockSize := by
    unfold blockAt
    omega
  rw [blockDiff, hsub, if_pos (Nat.dvd_mul_left _ _), Nat.mul_div_cancel _ (by omega)]

theorem inChunk_blockAt (blockSize c : ℕ) {k : ℕ} (hk : k < blocksPerChunk) :
    InChunk blockSize blocksPerChunk c (blockAt blockSize c k) := by
  have hsize := eight_le_sizeofBlock blockSize
  have hle := blockAt_add_le blockSize c hk
  exact ⟨le_blockAt blockSize c k, by omega⟩

/-- **A block is accepted** when its index is a multiple of `sizeof(Block)`. -/
theorem isAddressIn_blockAt (hsep : Separate blockSize blocksPerChunk chunks) (hc : c ∈ chunks)
    {k : ℕ} (hk : k < blocksPerChunk) :
    isAddressIn blockSize blocksPerChunk u (blockAt blockSize c k) chunks = true ↔
      sizeofBlock blockSize ∣ k := by
  rw [isAddressIn_of_inChunk hsep hc (inChunk_blockAt blockSize c hk), blockDiff_blockAt,
    decide_eq_true_iff, Nat.dvd_iff_mod_eq_zero]

/-- Of the addresses of blocks, those at such an index are accepted. -/
theorem isAddressInPool_iff_atMultiple {s : MemoryPool blockSize blocksPerChunk}
    (hsep : Separate blockSize blocksPerChunk s.chunks)
    (hblock : IsBlock blockSize blocksPerChunk s.chunks p) :
    s.isAddressInPool u p = true ↔ AtMultiple blockSize blocksPerChunk s.chunks p := by
  constructor
  · intro hin
    obtain ⟨c, hc, k, hk, rfl⟩ := hblock
    exact ⟨c, hc, k, hk, rfl, (isAddressIn_blockAt hsep hc hk).mp hin⟩
  · rintro ⟨c, hc, k, hk, rfl, hdvd⟩
    exact (isAddressIn_blockAt hsep hc hk).mpr hdvd

/-- An address in a chunk is that of a block when it is a whole number of blocks from the start. -/
theorem isBlock_iff_of_inChunk (hsep : Separate blockSize blocksPerChunk chunks) (hc : c ∈ chunks)
    (hp : InChunk blockSize blocksPerChunk c p) :
    IsBlock blockSize blocksPerChunk chunks p ↔ sizeofBlock blockSize ∣ p - c := by
  constructor
  · rintro ⟨d, hd, k, hk, rfl⟩
    have hdc : d = c := by
      by_contra hne
      have hapart : Apart blockSize blocksPerChunk d c := hsep.pairwise.forall hd hc hne
      have hin := inChunk_blockAt blockSize d hk
      unfold Apart at hapart
      unfold InChunk at hin hp
      omega
    subst hdc
    exact ⟨k, by rw [blockAt, Nat.add_sub_cancel_left, Nat.mul_comm]⟩
  · rintro ⟨k, hk⟩
    have hpk : p = blockAt blockSize c k := by
      have hle := hp.1
      rw [blockAt, Nat.mul_comm, ← hk]
      omega
    refine ⟨c, hc, k, ?_, hpk⟩
    by_contra hge
    have hlt := hp.2
    have hmul : blocksPerChunk * sizeofBlock blockSize ≤ k * sizeofBlock blockSize :=
      Nat.mul_le_mul_right _ (by omega)
    rw [hpk] at hlt
    unfold blockAt at hlt
    omega

/-- **Where `isAddressInPool` is right**, whatever a difference that is not a whole number of blocks
yields: outside all chunks, and at the blocks whose index is a multiple of `sizeof(Block)`. -/
theorem isAddressInPool_iff {s : MemoryPool blockSize blocksPerChunk}
    (hsep : Separate blockSize blocksPerChunk s.chunks) (p : ℕ) :
    (∀ u, s.isAddressInPool u p = true ↔ IsBlock blockSize blocksPerChunk s.chunks p) ↔
      (∀ c ∈ s.chunks, ¬ InChunk blockSize blocksPerChunk c p) ∨
        AtMultiple blockSize blocksPerChunk s.chunks p := by
  constructor
  · intro hright
    by_cases hout : ∀ c ∈ s.chunks, ¬ InChunk blockSize blocksPerChunk c p
    · exact .inl hout
    · push Not at hout
      obtain ⟨c, hc, hp⟩ := hout
      right
      -- let a difference that is not defined yield zero
      have hzero := hright fun _ _ => 0
      have hblock : IsBlock blockSize blocksPerChunk s.chunks p := by
        by_cases hdvd : sizeofBlock blockSize ∣ p - c
        · exact (isBlock_iff_of_inChunk hsep hc hp).mpr hdvd
        · apply hzero.mp
          rw [isAddressInPool, isAddressIn_of_inChunk hsep hc hp, blockDiff, if_neg hdvd,
            Nat.zero_mod]
          rfl
      obtain ⟨d, hd, k, hk, rfl⟩ := hblock
      have haccepted := hzero.mpr ⟨d, hd, k, hk, rfl⟩
      exact ⟨d, hd, k, hk, rfl, (isAddressIn_blockAt hsep hd hk).mp haccepted⟩
  · rintro (hout | ⟨c, hc, k, hk, rfl, hdvd⟩) u
    · have hno : s.isAddressInPool u p = false := isAddressIn_of_forall_not hout
      rw [hno]
      constructor
      · nofun
      · rintro ⟨c, hc, k, hk, rfl⟩
        exact absurd (inChunk_blockAt blockSize c hk) (hout c hc)
    · constructor
      · intro _
        exact ⟨c, hc, k, hk, rfl⟩
      · intro _
        exact (isAddressIn_blockAt hsep hc hk).mpr hdvd

end Addresses

/-! ### Runs -/

section Runs

variable {u : ℕ → ℕ → ℕ} {s t : System blockSize blocksPerChunk}

/-- A block that is held can be freed when its index is a multiple of `sizeof(Block)`. -/
theorem deallocate_eq_ok_iff (h : Owned s.pool s.held) {ptr : ℕ} (hptr : ptr ∈ s.held) :
    (s.pool.deallocate u ptr).1 = .ok () ↔
      AtMultiple blockSize blocksPerChunk s.pool.chunks ptr := by
  have hblock := h.isBlock hptr
  have hne := hblock.ne_zero h.separate
  rw [← isAddressInPool_iff_atMultiple h.separate hblock (u := u), deallocate, if_neg hne]
  split_ifs with hin
  · exact ⟨fun _ => hin, fun _ => rfl⟩
  · exact ⟨nofun, fun h => absurd h hin⟩

/-- What holds of the chunks in every run: no more than the most blocks held at one time need. -/
structure Sized (s : System blockSize blocksPerChunk) : Prop where
  owned : Owned s.pool s.held
  held_le : s.held.length ≤ s.peak
  chunks_lt : s.pool.chunks ≠ [] →
    blocksPerChunk * s.pool.chunks.length < s.peak + blocksPerChunk

theorem sized_create (memory : ByteMemory) :
    Sized (System.create memory : System blockSize blocksPerChunk) where
  owned := owned_create memory
  held_le := Nat.le_refl 0
  chunks_lt := fun h => absurd rfl h

/-- **One step keeps the size.**  A new chunk is requested while as many blocks are held as there
are. -/
theorem sized_step (hpos : 0 < blocksPerChunk) {a : Action} (h : Sized s)
    (hstep : step u s a = some t) : Sized t := by
  have howned := owned_step hpos h.owned hstep
  cases a with
  | allocate newChunk =>
    rcases step_allocate h.owned hpos hstep with rfl | ⟨ptr, pool, _, _, hchunks, rfl⟩
    · exact h
    · have hheld : (ptr :: s.held).length = s.held.length + 1 := List.length_cons
      refine ⟨howned, ?_, ?_⟩
      · show (ptr :: s.held).length ≤ max s.peak (s.held.length + 1)
        omega
      · intro hne
        show blocksPerChunk * pool.chunks.length
          < max s.peak (s.held.length + 1) + blocksPerChunk
        rcases hchunks with ⟨_, hsame⟩ | ⟨hfree, hnew⟩
        · have hlt := h.chunks_lt (hsame ▸ hne)
          rw [hsame]
          omega
        · have hall := (h.owned.held_perm hfree).length_eq
          rw [length_blocks] at hall
          rw [hnew, List.length_append, List.length_singleton, Nat.mul_succ]
          omega
  | deallocate ptr =>
    rcases step_deallocate h.owned hstep with rfl | ⟨_, _, rfl⟩
    · exact h
    · exact ⟨howned, (List.erase_sublist.length_le).trans h.held_le, h.chunks_lt⟩
  | write address byte =>
    simp only [step] at hstep
    split_ifs at hstep
    obtain rfl := Option.some.inj hstep
    exact ⟨howned, h.held_le, h.chunks_lt⟩

/-- **What is accepted, and what follows for the reuse of blocks**, in every run.  The address test
is right for the addresses outside all chunks and for the blocks whose index is a multiple of
`sizeof(Block)`, and for no others; just these blocks can be freed; a new chunk is requested only
while all blocks are held; and there are at most as many chunks as the most blocks held at one time
need. -/
theorem reuse_exact (hpos : 0 < blocksPerChunk) {memory : ByteMemory}
    (h : Reaches (step u) (fun _ _ => True) (System.create memory) s) :
    (∀ p, (∀ u', s.pool.isAddressInPool u' p = true ↔
        IsBlock blockSize blocksPerChunk s.pool.chunks p) ↔
      (∀ c ∈ s.pool.chunks, ¬ InChunk blockSize blocksPerChunk c p) ∨
        AtMultiple blockSize blocksPerChunk s.pool.chunks p) ∧
    (∀ ptr ∈ s.held, (s.pool.deallocate u ptr).1 = .ok () ↔
      AtMultiple blockSize blocksPerChunk s.pool.chunks ptr) ∧
    (∀ newChunk ptr pool, s.pool.AlignedAlloc newChunk →
      s.pool.allocate newChunk = (.ok ptr, pool) → pool.chunks ≠ s.pool.chunks →
      ∀ p, IsBlock blockSize blocksPerChunk s.pool.chunks p → p ∈ s.held) ∧
    s.pool.chunks.length ≤ (s.peak + blocksPerChunk - 1) / blocksPerChunk := by
  have hsized : Sized s :=
    h.invariant (fun _ _ _ hinv _ hstep => sized_step hpos hinv hstep) (sized_create memory)
  have howned := hsized.owned
  refine ⟨isAddressInPool_iff howned.separate, fun ptr => deallocate_eq_ok_iff howned, ?_, ?_⟩
  · intro newChunk ptr pool halloc hallocate hne p hp
    rcases howned.allocate hpos halloc with ⟨ptr', pool', heq, _, hchunks⟩ | heq
    · rw [heq] at hallocate
      obtain ⟨_, rfl⟩ := Prod.mk.inj hallocate
      rcases hchunks with ⟨_, hsame⟩ | ⟨hfree, _⟩
      · exact absurd hsame hne
      · exact (howned.held_perm hfree).mem_iff.mpr (mem_blocks.mpr hp)
    · rw [heq] at hallocate
      cases hallocate
  · rw [Nat.le_div_iff_mul_le hpos, Nat.mul_comm]
    by_cases hnone : s.pool.chunks = []
    · rw [hnone]
      exact Nat.zero_le _
    · have hlt := hsized.chunks_lt hnone
      omega

end Runs

/-! ### Two runs -/

/-- A client is given the first block of a chunk and frees it, again and again. -/
def firstAgain : List Action :=
  [.allocate 4096, .deallocate 4096, .allocate 0, .deallocate 4096, .allocate 0]

theorem reuse_exact_firstAgain :
    ∃ s : System 8 2,
      run (step fun _ _ => 0) (fun _ _ => True) (System.create fun _ => 0) firstAgain = some s ∧
      s.peak = 1 ∧ s.pool.chunks.length ≤ 1 := by
  obtain ⟨s, hs, hpeak⟩ : ∃ s : System 8 2,
      run (step fun _ _ => 0) (fun _ _ => True) (System.create fun _ => 0) firstAgain = some s ∧
      s.peak = 1 := ⟨_, rfl, rfl⟩
  have hchunks := (reuse_exact Nat.two_pos (reaches_of_run hs)).2.2.2
  rw [hpeak] at hchunks
  exact ⟨s, hs, hpeak, hchunks⟩

/-- A client that holds both blocks of a chunk cannot free the second one. -/
theorem second_block_refused :
    ∃ s : System 8 2,
      Reaches (step fun _ _ => 0) (fun _ _ => True) (System.create fun _ => 0) s ∧
      4104 ∈ s.held ∧ IsBlock 8 2 s.pool.chunks 4104 ∧
      s.pool.isAddressInPool (fun _ _ => 0) 4104 = false ∧
      (s.pool.deallocate (fun _ _ => 0) 4104).1 = .error .invalidArgument := by
  obtain ⟨s, hs, hheld, hchunks, hrefused, hthrows⟩ : ∃ s : System 8 2,
      run (step fun _ _ => 0) (fun _ _ => True) (System.create fun _ => 0)
        [.allocate 4096, .allocate 0] = some s ∧
      s.held = [4104, 4096] ∧ s.pool.chunks = [4096] ∧
      s.pool.isAddressInPool (fun _ _ => 0) 4104 = false ∧
      (s.pool.deallocate (fun _ _ => 0) 4104).1 = .error .invalidArgument :=
    ⟨_, rfl, rfl, rfl, by decide, by decide⟩
  refine ⟨s, reaches_of_run hs, by rw [hheld]; decide, ?_, hrefused, hthrows⟩
  rw [hchunks]
  exact ⟨4096, List.mem_singleton_self _, 1, Nat.one_lt_two, rfl⟩

end NetSentry.MemoryPool
