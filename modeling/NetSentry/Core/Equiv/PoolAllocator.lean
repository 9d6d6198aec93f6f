import NetSentry.Core.Equiv.MemoryPool
import NetSentry.Core.PoolAllocator

/-!
# Which objects a `PoolAllocator` keeps alive

`allocate(1)` goes to `ObjectPool`, which constructs an object in the block that it returns, and
`deallocate(p, 1)` destroys one there.  A container does both itself.

* `balanced_of_reaches`: in every run in which no container constructs an object in a block of one
  slot, and the bytes of a block can be counted in a `size_t`, every slot holds nothing or one
  object, no constructor runs where there is an object, and no destructor where there is none.
* `not_balanced_oneElement`: one container with one element.

`Inv` accounts for every object: it is in a slot that its container has constructed, or in a block
of one slot (`Block.objects`).  The blocks lie apart, those of one slot in chunks of the pool and
the others outside of them (`BlockInv`).
-/

namespace NetSentry.PoolAllocator

open Transition MemoryPool

variable {sizeT : ℕ} {w w' : World sizeT} {b c : Block}

/-! ### The statement -/

/-- Two slots do not overlap. -/
def Beside (sizeT p q : ℕ) : Prop := p + sizeT ≤ q ∨ q + sizeT ≤ p

/-- No object is in the slot. -/
def World.Raw (w : World sizeT) (p : ℕ) : Prop := ∀ q, w.objects q ≠ 0 → Beside sizeT p q

/-- Exactly one object is in the slot. -/
def World.HoldsOne (w : World sizeT) (p : ℕ) : Prop :=
  w.objects p = 1 ∧ ∀ q, w.objects q ≠ 0 → q = p ∨ Beside sizeT p q

/-- What is expected of the allocator. -/
structure Balanced (w : World sizeT) : Prop where
  slots : ∀ b ∈ w.blocks, ∀ i < b.n, w.Raw (b.slot sizeT i) ∨ w.HoldsOne (b.slot sizeT i)
  constructedOver : w.constructedOver = false
  destroyedNone : w.destroyedNone = false

/-- No container constructs an object in a block of one slot, and the bytes of a block can be
counted. -/
def Orderly (_ : World sizeT) : Action → Prop
  | .allocate n _ _ => n * sizeT < 2 ^ 64
  | .construct b _ _ => b.n ≠ 1
  | _ => True

instance (w : World sizeT) : ∀ a, Decidable (Orderly w a)
  | .allocate _ _ _ => inferInstanceAs (Decidable (_ < _))
  | .construct _ _ _ => inferInstanceAs (Decidable (¬ _))
  | .destroy _ _ | .deallocate _ | .write _ _ => .isTrue trivial

/-! ### Blocks -/

/-- The objects in a block: where it has one slot, the one that `ObjectPool::allocate` has
constructed. -/
def Block.objects (sizeT : ℕ) (b : Block) : List ℕ :=
  if b.n = 1 then [b.ptr] else b.constructed.map (b.slot sizeT)

/-- A block of one slot is one of the pool's, any other lies outside of its chunks. -/
structure BlockInv (sizeT : ℕ) (chunks held : List ℕ) (b : Block) : Prop where
  fits : b.n * sizeT < 2 ^ 64
  pooled : b.n = 1 → b.ptr ∈ held ∧ b.constructed = []
  outside : b.n ≠ 1 → ∀ chunk ∈ chunks, Outside sizeT chunk b
  nodup : b.constructed.Nodup
  lt : ∀ i ∈ b.constructed, i < b.n

section Block

variable {chunks held : List ℕ}

theorem Block.objects_of_eq_one (hn : b.n = 1) : b.objects sizeT = [b.ptr] := if_pos hn

theorem Block.objects_of_ne_one (hn : b.n ≠ 1) :
    b.objects sizeT = b.constructed.map (b.slot sizeT) := if_neg hn

theorem Block.objects_setConstructed (hn : b.n ≠ 1) (constructed : List ℕ) :
    Block.objects sizeT { b with constructed := constructed }
      = constructed.map (b.slot sizeT) := if_neg hn

theorem Block.slot_zero : b.slot sizeT 0 = b.ptr := by
  rw [Block.slot, Nat.zero_mul, Nat.add_zero]

theorem Block.slot_injective (hsize : 0 < sizeT) : Function.Injective (b.slot sizeT) := by
  intro i j hij
  exact Nat.eq_of_mul_eq_mul_right hsize (Nat.add_left_cancel hij)

/-- Two slots of one block do not overlap. -/
theorem Block.beside_slot {i j : ℕ} (hij : i ≠ j) :
    Beside sizeT (b.slot sizeT i) (b.slot sizeT j) := by
  unfold Beside Block.slot
  rcases Nat.lt_or_gt_of_ne hij with h | h
  · have hmul : (i + 1) * sizeT ≤ j * sizeT := Nat.mul_le_mul_right _ h
    rw [Nat.succ_mul] at hmul
    omega
  · have hmul : (j + 1) * sizeT ≤ i * sizeT := Nat.mul_le_mul_right _ h
    rw [Nat.succ_mul] at hmul
    omega

/-- The slots of a block lie in it. -/
theorem BlockInv.slot_add_le (hb : BlockInv sizeT chunks held b) {i : ℕ} (hi : i < b.n) :
    b.ptr ≤ b.slot sizeT i ∧ b.slot sizeT i + sizeT ≤ b.ptr + b.extent sizeT := by
  have hmul : (i + 1) * sizeT ≤ b.n * sizeT := Nat.mul_le_mul_right _ hi
  rw [Nat.succ_mul] at hmul
  have hle : b.n * sizeT ≤ b.extent sizeT := by
    rw [Block.extent, requested, Nat.mod_eq_of_lt hb.fits]
    exact Nat.le_max_right _ _
  unfold Block.slot
  omega

/-- The objects of a block are in its slots. -/
theorem BlockInv.exists_slot (hb : BlockInv sizeT chunks held b) {p : ℕ}
    (hp : p ∈ b.objects sizeT) :
    ∃ i < b.n, p = b.slot sizeT i ∧ (b.n = 1 ∨ i ∈ b.constructed) := by
  by_cases hn : b.n = 1
  · rw [Block.objects_of_eq_one hn] at hp
    refine ⟨0, by omega, ?_, .inl hn⟩
    rw [List.mem_singleton.mp hp, Block.slot_zero]
  · rw [Block.objects_of_ne_one hn] at hp
    obtain ⟨i, hi, rfl⟩ := List.mem_map.mp hp
    exact ⟨i, hb.lt i hi, rfl, .inr hi⟩

theorem BlockInv.nodup_objects (hsize : 0 < sizeT) (hb : BlockInv sizeT chunks held b) :
    (b.objects sizeT).Nodup := by
  by_cases hn : b.n = 1
  · rw [Block.objects_of_eq_one hn]
    exact List.nodup_singleton _
  · rw [Block.objects_of_ne_one hn]
    exact hb.nodup.map (Block.slot_injective hsize)

/-- **Slots of different blocks do not overlap.** -/
theorem BlockInv.beside_of_apart (hb : BlockInv sizeT chunks held b)
    (hc : BlockInv sizeT chunks held c) (hapart : Apart sizeT b c) {i j : ℕ} (hi : i < b.n)
    (hj : j < c.n) : Beside sizeT (b.slot sizeT i) (c.slot sizeT j) := by
  have hbi := hb.slot_add_le hi
  have hcj := hc.slot_add_le hj
  unfold Apart at hapart
  unfold Beside
  omega

/-- The container's record of a block says which of its slots hold an object. -/
theorem BlockInv.setConstructed (hb : BlockInv sizeT chunks held b) (hn : b.n ≠ 1)
    {constructed : List ℕ} (hnodup : constructed.Nodup) (hlt : ∀ i ∈ constructed, i < b.n) :
    BlockInv sizeT chunks held { b with constructed := constructed } where
  fits := hb.fits
  pooled := fun h => absurd h hn
  outside := hb.outside
  nodup := hnodup
  lt := hlt

/-- What the pool does to its chunks, as long as the blocks outside of them stay outside. -/
theorem BlockInv.mono {chunks' held' : List ℕ} (hb : BlockInv sizeT chunks held b)
    (hheld : held ⊆ held') (houtside : b.n ≠ 1 → ∀ chunk ∈ chunks', Outside sizeT chunk b) :
    BlockInv sizeT chunks' held' b where
  fits := hb.fits
  pooled := fun hn => ⟨hheld (hb.pooled hn).1, (hb.pooled hn).2⟩
  outside := houtside
  nodup := hb.nodup
  lt := hb.lt

/-- A block of one slot is not longer than a block of the pool. -/
theorem Block.extent_le_sizeofBlock (hn : b.n = 1) : b.extent sizeT ≤ sizeofBlock sizeT := by
  have hle : requested sizeT b.n ≤ sizeT := by
    rw [requested, hn, Nat.one_mul]
    exact Nat.mod_le _ _
  unfold Block.extent sizeofBlock
  omega

/-- **A block that the pool hands out** lies apart from those that the containers have. -/
theorem BlockInv.apart_of_owned {pool : MemoryPool sizeT 128} {ptr : ℕ}
    (howned : Owned pool (ptr :: held)) (hb : BlockInv sizeT pool.chunks held b) :
    Apart sizeT ⟨ptr, 1, []⟩ b := by
  have hblock := howned.isBlock List.mem_cons_self
  have hextent : Block.extent sizeT ⟨ptr, 1, []⟩ ≤ sizeofBlock sizeT :=
    Block.extent_le_sizeofBlock rfl
  unfold Apart
  by_cases hn : b.n = 1
  · -- both are blocks of the pool
    have hmem := (hb.pooled hn).1
    have hne : ptr ≠ b.ptr := by
      rintro rfl
      exact howned.notMem_of_cons hmem
    have hapart := hblock.apart howned.separate
      (howned.isBlock (List.mem_cons_of_mem ptr hmem)) hne
    have hextent' : b.extent sizeT ≤ sizeofBlock sizeT := Block.extent_le_sizeofBlock hn
    dsimp only
    omega
  · obtain ⟨chunk, hchunk, hle, hlt⟩ := hblock.inChunk
    have houtside := hb.outside hn chunk hchunk
    unfold Outside at houtside
    dsimp only
    omega

end Block

/-! ### The invariant -/

/-- **The invariant.** -/
structure Inv (w : World sizeT) : Prop where
  owned : Owned w.pool w.held
  blocks : ∀ b ∈ w.blocks, BlockInv sizeT w.pool.chunks w.held b
  apart : w.blocks.Pairwise (Apart sizeT)
  objects : ∀ p, w.objects p = (w.blocks.flatMap (Block.objects sizeT)).count p
  constructedOver : w.constructedOver = false
  destroyedNone : w.destroyedNone = false

theorem inv_initial (memory : ByteMemory) : Inv (World.initial memory : World sizeT) where
  owned := owned_create memory
  blocks := fun _ h => absurd h List.not_mem_nil
  apart := .nil
  objects := fun _ => rfl
  constructedOver := rfl
  destroyedNone := rfl

instance : Std.Symm (Apart sizeT) := ⟨fun _ _ h => h.symm⟩

/-- A block and the others. -/
theorem Inv.apart_erase (hinv : Inv w) (hb : b ∈ w.blocks) :
    (∀ c ∈ w.blocks.erase b, Apart sizeT b c) ∧ (w.blocks.erase b).Pairwise (Apart sizeT) :=
  List.pairwise_cons.mp (((List.perm_cons_erase hb).pairwise_iff fun h => h.symm).mp hinv.apart)

theorem Inv.blocks_erase (hinv : Inv w) (hc : c ∈ w.blocks.erase b) :
    BlockInv sizeT w.pool.chunks w.held c :=
  hinv.blocks c (List.mem_of_mem_erase hc)

/-- The objects of a block, and of the others. -/
theorem Inv.objects_eq (hinv : Inv w) (hb : b ∈ w.blocks) (p : ℕ) :
    w.objects p = (b.objects sizeT).count p
      + ((w.blocks.erase b).flatMap (Block.objects sizeT)).count p := by
  have hperm := (List.perm_cons_erase hb).flatMap_right (Block.objects sizeT)
  rw [hinv.objects p, hperm.count_eq, List.flatMap_cons, List.count_append]

/-- The slots of a block are in none of the others. -/
theorem Inv.slot_notMem (hsize : 0 < sizeT) (hinv : Inv w) (hb : b ∈ w.blocks) {i : ℕ}
    (hi : i < b.n) :
    b.slot sizeT i ∉ (w.blocks.erase b).flatMap (Block.objects sizeT) := by
  intro hmem
  obtain ⟨c, hc, hslot⟩ := List.mem_flatMap.mp hmem
  obtain ⟨j, hj, heq, -⟩ := (hinv.blocks_erase hc).exists_slot hslot
  have hbeside := (hinv.blocks b hb).beside_of_apart (hinv.blocks_erase hc)
    ((hinv.apart_erase hb).1 c hc) hi hj
  rw [← heq] at hbeside
  unfold Beside at hbeside
  omega

/-- A slot holds an object if its container has constructed one there, or the pool has. -/
theorem Inv.objects_slot (hsize : 0 < sizeT) (hinv : Inv w) (hb : b ∈ w.blocks) {i : ℕ}
    (hi : i < b.n) :
    w.objects (b.slot sizeT i) = if b.n = 1 ∨ i ∈ b.constructed then 1 else 0 := by
  rw [hinv.objects_eq hb, List.count_eq_zero_of_not_mem (hinv.slot_notMem hsize hb hi),
    Nat.add_zero]
  have hbinv := hinv.blocks b hb
  split_ifs with hlive
  · apply List.count_eq_one_of_mem (hbinv.nodup_objects hsize)
    by_cases hn : b.n = 1
    · obtain rfl : i = 0 := by omega
      rw [Block.objects_of_eq_one hn, Block.slot_zero]
      exact List.mem_singleton_self _
    · rw [Block.objects_of_ne_one hn]
      exact List.mem_map_of_mem (hlive.resolve_left hn)
  · obtain ⟨hn, hnot⟩ := not_or.mp hlive
    apply List.count_eq_zero_of_not_mem
    rw [Block.objects_of_ne_one hn, List.mem_map_of_injective (Block.slot_injective hsize)]
    exact hnot

/-- Every object is in a slot. -/
theorem Inv.exists_slot (hinv : Inv w) {p : ℕ} (hp : w.objects p ≠ 0) :
    ∃ c ∈ w.blocks, ∃ j < c.n, p = c.slot sizeT j := by
  rw [hinv.objects p] at hp
  obtain ⟨c, hc, hmem⟩ := List.mem_flatMap.mp (List.count_pos_iff.mp (Nat.pos_of_ne_zero hp))
  obtain ⟨j, hj, heq, -⟩ := (hinv.blocks c hc).exists_slot hmem
  exact ⟨c, hc, j, hj, heq⟩

/-- A slot, and every object elsewhere. -/
theorem Inv.eq_or_beside (hinv : Inv w) (hb : b ∈ w.blocks) {i : ℕ} (hi : i < b.n) {p : ℕ}
    (hp : w.objects p ≠ 0) : p = b.slot sizeT i ∨ Beside sizeT (b.slot sizeT i) p := by
  obtain ⟨c, hc, j, hj, rfl⟩ := hinv.exists_slot hp
  by_cases hcb : c = b
  · subst hcb
    by_cases hij : i = j
    · exact .inl (by rw [hij])
    · exact .inr (Block.beside_slot hij)
  · have hmem : c ∈ w.blocks.erase b := (List.mem_erase_of_ne hcb).mpr hc
    exact .inr ((hinv.blocks b hb).beside_of_apart (hinv.blocks c hc)
      ((hinv.apart_erase hb).1 c hmem) hi hj)

/-! ### The steps -/

/-- A container changes its record of a block, together with the objects. -/
theorem Inv.setConstructed (hinv : Inv w) (hb : b ∈ w.blocks) {constructed : List ℕ}
    (hbinv : BlockInv sizeT w.pool.chunks w.held { b with constructed := constructed })
    {objects : ℕ → ℕ} (hobjects : ∀ p, objects p
      = (Block.objects sizeT { b with constructed := constructed }).count p
        + ((w.blocks.erase b).flatMap (Block.objects sizeT)).count p) :
    Inv (({ w with objects := objects } : World sizeT).setConstructed b constructed) where
  owned := hinv.owned
  blocks := fun c hc => by
    rcases List.mem_cons.mp hc with rfl | hc
    · exact hbinv
    · exact hinv.blocks_erase hc
  apart := List.pairwise_cons.mpr (hinv.apart_erase hb)
  objects := fun p => by
    rw [World.setConstructed, List.flatMap_cons, List.count_append]
    exact hobjects p
  constructedOver := hinv.constructedOver
  destroyedNone := hinv.destroyedNone

/-- What a constructor does to a slot that holds nothing. -/
theorem construct_of_eq_zero (hinv : Inv w) {p : ℕ} (hp : w.objects p = 0) (throws : Bool) :
    w.construct p throws = { w with
      objects := if throws then w.objects else Function.update w.objects p 1 } := by
  rw [World.construct, hp, hinv.constructedOver]
  rfl

/-- What the destructor does to a slot that holds an object. -/
theorem destroy_of_eq_one (hinv : Inv w) {p : ℕ} (hp : w.objects p = 1) :
    w.destroy p = { w with objects := Function.update w.objects p 0 } := by
  rw [World.destroy, hp, hinv.destroyedNone]
  rfl

theorem inv_construct (hsize : 0 < sizeT) {i : ℕ} {throws : Bool} (hinv : Inv w)
    (hn : b.n ≠ 1) {u : ℕ → ℕ → ℕ} (h : step u w (.construct b i throws) = some w') : Inv w' := by
  simp only [step] at h
  split_ifs at h with hcond hthrows <;> obtain ⟨hb, hi, hnot⟩ := hcond <;>
    obtain rfl := Option.some.inj h
  all_goals
    have hzero : w.objects (b.slot sizeT i) = 0 := by
      rw [hinv.objects_slot hsize hb hi, if_neg (not_or.mpr ⟨hn, hnot⟩)]
    rw [construct_of_eq_zero hinv hzero]
  · -- an exception leaves everything as it is
    rw [if_pos hthrows]
    exact hinv
  · rw [if_neg hthrows]
    have hbinv := hinv.blocks b hb
    have hlt : ∀ j ∈ i :: b.constructed, j < b.n := by
      intro j hj
      rcases List.mem_cons.mp hj with rfl | hj
      · exact hi
      · exact hbinv.lt j hj
    refine hinv.setConstructed hb
      (hbinv.setConstructed hn (List.nodup_cons.mpr ⟨hnot, hbinv.nodup⟩) hlt) ?_
    intro p
    have hold := hinv.objects_eq hb p
    have hnew : Block.objects sizeT { b with constructed := i :: b.constructed }
        = b.slot sizeT i :: b.objects sizeT := by
      rw [Block.objects_setConstructed hn, Block.objects_of_ne_one hn, List.map_cons]
    rw [hnew]
    by_cases hp : p = b.slot sizeT i
    · subst hp
      rw [hzero] at hold
      rw [Function.update_self, List.count_cons_self]
      omega
    · rw [Function.update_of_ne hp, List.count_cons_of_ne (Ne.symm hp), hold]

theorem inv_destroy (hsize : 0 < sizeT) {i : ℕ} (hinv : Inv w) {u : ℕ → ℕ → ℕ}
    (h : step u w (.destroy b i) = some w') : Inv w' := by
  simp only [step] at h
  split_ifs at h with hcond
  obtain rfl := Option.some.inj h
  obtain ⟨hb, hi⟩ := hcond
  have hbinv := hinv.blocks b hb
  -- what the container has constructed is not in a block of one slot
  have hn : b.n ≠ 1 := by
    intro hn
    rw [(hbinv.pooled hn).2] at hi
    cases hi
  have hone : w.objects (b.slot sizeT i) = 1 := by
    rw [hinv.objects_slot hsize hb (hbinv.lt i hi), if_pos (.inr hi)]
  rw [destroy_of_eq_one hinv hone]
  refine hinv.setConstructed hb (hbinv.setConstructed hn (hbinv.nodup.erase i)
    fun j hj => hbinv.lt j (List.mem_of_mem_erase hj)) ?_
  intro p
  have hold := hinv.objects_eq hb p
  have hperm : (b.objects sizeT).Perm
      (b.slot sizeT i :: Block.objects sizeT { b with constructed := b.constructed.erase i }) := by
    rw [Block.objects_of_ne_one hn, Block.objects_setConstructed hn]
    exact (List.perm_cons_erase hi).map (b.slot sizeT)
  rw [hperm.count_eq] at hold
  by_cases hp : p = b.slot sizeT i
  · subst hp
    rw [hone, List.count_cons_self] at hold
    rw [Function.update_self]
    omega
  · rw [Function.update_of_ne hp, hold, List.count_cons_of_ne (Ne.symm hp)]

/-! ### Blocks that come and go -/

/-- A block that lies apart from the others is added, with its objects. -/
theorem Inv.addBlock (hinv : Inv w) (hb : BlockInv sizeT w.pool.chunks w.held b)
    (hapart : ∀ c ∈ w.blocks, Apart sizeT b c) {objects : ℕ → ℕ}
    (hobjects : ∀ p, objects p = (b.objects sizeT).count p + w.objects p) :
    Inv ({ w with blocks := b :: w.blocks, objects := objects } : World sizeT) where
  owned := hinv.owned
  blocks := fun c hc => by
    rcases List.mem_cons.mp hc with rfl | hc
    · exact hb
    · exact hinv.blocks c hc
  apart := List.pairwise_cons.mpr ⟨hapart, hinv.apart⟩
  objects := fun p => by
    rw [List.flatMap_cons, List.count_append, ← hinv.objects p]
    exact hobjects p
  constructedOver := hinv.constructedOver
  destroyedNone := hinv.destroyedNone

/-- The pool hands out a block. -/
theorem Inv.setPool (hinv : Inv w) {pool : MemoryPool sizeT 128} {ptr : ℕ}
    (howned : Owned pool (ptr :: w.held))
    (houtside : ∀ b ∈ w.blocks, b.n ≠ 1 → ∀ chunk ∈ pool.chunks, Outside sizeT chunk b) :
    Inv ({ w with pool := pool, held := ptr :: w.held } : World sizeT) :=
  { hinv with
    owned := howned
    blocks := fun b hb => (hinv.blocks b hb).mono (List.subset_cons_self _ _) (houtside b hb) }

/-- The blocks outside of the chunks are outside of a new one, too. -/
theorem Inv.outside_of_allocate (hinv : Inv w) {memory ptr : ℕ} {pool : MemoryPool sizeT 128}
    (halloc : w.AlignedAlloc memory) (howned : Owned pool (ptr :: w.held))
    (hchunks : (w.pool.freeBlocks ≠ 0 ∧ pool.chunks = w.pool.chunks) ∨
      (w.pool.freeBlocks = 0 ∧ pool.chunks = w.pool.chunks ++ [memory])) :
    ∀ b ∈ w.blocks, b.n ≠ 1 → ∀ chunk ∈ pool.chunks, Outside sizeT chunk b := by
  intro b hb hn chunk hchunk
  rcases hchunks with ⟨-, hsame⟩ | ⟨-, hnew⟩
  · exact (hinv.blocks b hb).outside hn chunk (hsame ▸ hchunk)
  · have hne : memory ≠ 0 := by
      apply howned.separate.ne_zero
      rw [hnew]
      exact List.mem_append_right _ (List.mem_singleton_self _)
    rw [hnew] at hchunk
    rcases List.mem_append.mp hchunk with hold | hmem
    · exact (hinv.blocks b hb).outside hn chunk hold
    · rw [List.mem_singleton.mp hmem]
      exact halloc.2.resolve_left hne b hb hn

/-- There is no object at a block that lies apart from those that the containers have. -/
theorem Inv.objects_eq_zero (hsize : 0 < sizeT) (hinv : Inv w)
    (hb : BlockInv sizeT w.pool.chunks w.held b) (hn : 0 < b.n)
    (hapart : ∀ c ∈ w.blocks, Apart sizeT b c) : w.objects b.ptr = 0 := by
  by_contra hne
  obtain ⟨c, hc, j, hj, hslot⟩ := hinv.exists_slot hne
  have hbeside := hb.beside_of_apart (hinv.blocks c hc) (hapart c hc) hn hj
  rw [← hslot, Block.slot_zero] at hbeside
  unfold Beside at hbeside
  omega

/-- `ObjectPool::allocate`. -/
theorem inv_poolAllocate (hsize : 0 < sizeT) (hfits : sizeT < 2 ^ 64) (hinv : Inv w) {memory : ℕ}
    {throws : Bool} (halloc : w.AlignedAlloc memory) :
    (∃ ptr w', w.poolAllocate memory throws = (some ptr, w') ∧
      Inv ({ w' with blocks := ⟨ptr, 1, []⟩ :: w'.blocks } : World sizeT)) ∨
    ∃ w', w.poolAllocate memory throws = (none, w') ∧ Inv w' := by
  unfold World.poolAllocate
  rcases hinv.owned.allocate (by decide) halloc.1 with ⟨ptr, pool, heq, howned, hchunks⟩ | heq
  · have houtside := hinv.outside_of_allocate halloc howned hchunks
    have hinv' := hinv.setPool howned houtside
    have hapart : ∀ b ∈ w.blocks, Apart sizeT ⟨ptr, 1, []⟩ b := fun b hb =>
      BlockInv.apart_of_owned howned
        ((hinv.blocks b hb).mono (List.Subset.refl _) (houtside b hb))
    have hbinv : BlockInv sizeT pool.chunks (ptr :: w.held) ⟨ptr, 1, []⟩ := {
      fits := by rwa [Nat.one_mul]
      pooled := fun _ => ⟨List.mem_cons_self, rfl⟩
      outside := fun h => absurd rfl h
      nodup := List.nodup_nil
      lt := nofun }
    have hzero : w.objects ptr = 0 := hinv'.objects_eq_zero hsize hbinv Nat.one_pos hapart
    rw [heq]
    dsimp only
    rw [construct_of_eq_zero hinv' hzero]
    cases throws
    · refine .inl ⟨ptr, _, rfl, hinv'.addBlock hbinv hapart ?_⟩
      intro p
      rw [Block.objects_of_eq_one rfl]
      by_cases hp : p = ptr
      · subst hp
        simp [hzero]
      · simp [hp, Ne.symm hp]
    · exact .inr ⟨_, rfl, hinv'⟩
  · rw [heq]
    exact .inr ⟨_, rfl, hinv⟩

theorem inv_allocate (hsize : 0 < sizeT) {n memory : ℕ} {throws : Bool}
    (hfits : n * sizeT < 2 ^ 64) (hinv : Inv w) {u : ℕ → ℕ → ℕ}
    (h : step u w (.allocate n memory throws) = some w') : Inv w' := by
  simp only [step, World.NewMemory, World.allocate] at h
  by_cases hn : n = 1
  · subst hn
    rw [Nat.one_mul] at hfits
    simp only [if_true] at h
    split_ifs at h with halloc
    rcases inv_poolAllocate hsize hfits hinv halloc with ⟨ptr, w₁, heq, hinv₁⟩ | ⟨w₁, heq, hinv₁⟩
    · rw [heq] at h
      obtain rfl := Option.some.inj h
      exact hinv₁
    · rw [heq] at h
      obtain rfl := Option.some.inj h
      exact hinv₁
  · simp only [if_neg hn] at h
    split_ifs at h with hnew hnull
    · obtain rfl := Option.some.inj h
      exact hinv
    · obtain rfl := Option.some.inj h
      obtain ⟨-, hapart, houtside⟩ := hnew.resolve_left hnull
      have hbinv : BlockInv sizeT w.pool.chunks w.held ⟨memory, n, []⟩ :=
        ⟨hfits, fun h => absurd h hn, fun _ => houtside, List.nodup_nil, nofun⟩
      refine hinv.addBlock hbinv hapart fun p => ?_
      rw [Block.objects_of_ne_one hn]
      simp

/-- A block goes, with its objects. -/
theorem Inv.eraseBlock (hinv : Inv w) {objects : ℕ → ℕ} (hobjects : ∀ p, objects p
      = ((w.blocks.erase b).flatMap (Block.objects sizeT)).count p) (hb : b ∈ w.blocks) :
    Inv ({ w with blocks := w.blocks.erase b, objects := objects } : World sizeT) where
  owned := hinv.owned
  blocks := fun _ hc => hinv.blocks_erase hc
  apart := (hinv.apart_erase hb).2
  objects := hobjects
  constructedOver := hinv.constructedOver
  destroyedNone := hinv.destroyedNone

/-- The pool takes a block back that no container has any more. -/
theorem Inv.pushBlock (hinv : Inv w) {p : ℕ} (hp : p ∈ w.held)
    (hgone : ∀ c ∈ w.blocks, c.n = 1 → c.ptr ≠ p) :
    Inv ({ w with
      pool := { w.pool with memory := setNext w.pool.memory p w.pool.freeBlocks, freeBlocks := p }
      held := w.held.erase p } : World sizeT) :=
  { hinv with
    owned := hinv.owned.pushBlock hp
    blocks := fun _ hc => { hinv.blocks _ hc with
      pooled := fun hn => by
        obtain ⟨hmem, hnil⟩ := (hinv.blocks _ hc).pooled hn
        exact ⟨(List.mem_erase_of_ne (hgone _ hc hn)).mpr hmem, hnil⟩ } }

theorem inv_deallocate (hsize : 0 < sizeT) (hinv : Inv w) {u : ℕ → ℕ → ℕ}
    (h : step u w (.deallocate b) = some w') : Inv w' := by
  simp only [step] at h
  split_ifs at h with hcond
  obtain rfl := Option.some.inj h
  obtain ⟨hb, hnil⟩ := hcond
  by_cases hn : b.n = 1
  · have hmem := ((hinv.blocks b hb).pooled hn).1
    have hone : w.objects b.ptr = 1 := by
      have hslot := hinv.objects_slot hsize hb (show 0 < b.n by omega)
      rwa [Block.slot_zero, if_pos (.inl hn)] at hslot
    have hobjects : ∀ p, Function.update w.objects b.ptr 0 p
        = ((w.blocks.erase b).flatMap (Block.objects sizeT)).count p := by
      intro p
      have hold := hinv.objects_eq hb p
      rw [Block.objects_of_eq_one hn] at hold
      by_cases hp : p = b.ptr
      · subst hp
        rw [hone, List.count_singleton_self] at hold
        rw [Function.update_self]
        omega
      · rw [Function.update_of_ne hp, hold,
          List.count_eq_zero_of_not_mem (List.mem_singleton.not.mpr hp), Nat.zero_add]
    have hinv' := hinv.eraseBlock hobjects hb
    have hgone : ∀ c ∈ w.blocks.erase b, c.n = 1 → c.ptr ≠ b.ptr := by
      intro c hc _ heq
      have hapart := (hinv.apart_erase hb).1 c hc
      unfold Apart Block.extent at hapart
      omega
    have hne : b.ptr ≠ 0 := fun hzero => hinv.owned.zero_notMem (hzero ▸ hmem)
    rw [World.deallocate, if_pos hn, World.poolDeallocate, if_neg hne,
      destroy_of_eq_one hinv hone]
    simp only [MemoryPool.deallocate, if_neg hne]
    split_ifs
    · exact hinv'.pushBlock hmem hgone
    · exact hinv'
  · rw [World.deallocate, if_neg hn]
    refine hinv.eraseBlock (fun p => ?_) hb
    rw [hinv.objects_eq hb, Block.objects_of_ne_one hn, hnil, List.map_nil, List.count_nil,
      Nat.zero_add]

/-- **One step keeps the invariant.** -/
theorem inv_step (hsize : 0 < sizeT) {u : ℕ → ℕ → ℕ} {a : Action} (hinv : Inv w)
    (horderly : Orderly w a) (h : step u w a = some w') : Inv w' := by
  cases a with
  | allocate n memory throws => exact inv_allocate hsize horderly hinv h
  | construct b i throws => exact inv_construct hsize hinv horderly h
  | destroy b i => exact inv_destroy hsize hinv h
  | deallocate b => exact inv_deallocate hsize hinv h
  | write address byte =>
    simp only [step] at h
    split_ifs at h with hwritable
    obtain rfl := Option.some.inj h
    exact { hinv with owned := hinv.owned.write byte hwritable }

/-! ### Runs -/

theorem balanced_of_inv (hsize : 0 < sizeT) (hinv : Inv w) : Balanced w where
  slots := fun b hb i hi => by
    have hslot := hinv.objects_slot hsize hb hi
    split_ifs at hslot
    · exact .inr ⟨hslot, fun p hp => hinv.eq_or_beside hb hi hp⟩
    · refine .inl fun p hp => (hinv.eq_or_beside hb hi hp).resolve_left ?_
      rintro rfl
      exact hp hslot
  constructedOver := hinv.constructedOver
  destroyedNone := hinv.destroyedNone

/-- **Every object is constructed once and destroyed once**, in every run in which no container
constructs an object in a block of one slot. -/
theorem balanced_of_reaches (hsize : 0 < sizeT) {u : ℕ → ℕ → ℕ} {memory : ByteMemory}
    (h : Reaches (step u) Orderly (World.initial memory) w) : Balanced w := by
  have hkeep : ∀ (w : World sizeT) a w', Inv w → Orderly w a → step u w a = some w' → Inv w' :=
    fun _ _ _ hinv horderly hstep => inv_step hsize hinv horderly hstep
  exact balanced_of_inv hsize (h.invariant hkeep (inv_initial memory))

/-! ### Two runs -/

/-- A container of three elements is filled and emptied; beside it a block of one slot is asked for
and given back. -/
def threeElements : List Action :=
  [.allocate 3 4096 false, .construct ⟨4096, 3, []⟩ 0 false, .allocate 1 8192 false,
    .construct ⟨4096, 3, [0]⟩ 1 false, .deallocate ⟨8192, 1, []⟩, .destroy ⟨4096, 3, [1, 0]⟩ 0,
    .construct ⟨4096, 3, [1]⟩ 0 false]

theorem balanced_threeElements :
    ∃ w : World 8,
      run (step fun _ _ => 0) Orderly (World.initial fun _ => 0) threeElements = some w ∧
      w.blocks = [⟨4096, 3, [0, 1]⟩] ∧ Balanced w := by
  have hrun : ∃ w : World 8,
      run (step fun _ _ => 0) Orderly (World.initial fun _ => 0) threeElements = some w ∧
      w.blocks = [⟨4096, 3, [0, 1]⟩] := ⟨_, rfl, rfl⟩
  obtain ⟨w, hrun, hblocks⟩ := hrun
  exact ⟨w, hrun, hblocks, balanced_of_reaches (by decide) (reaches_of_run hrun)⟩

/-- A container of one element. -/
def oneElement : List Action := [.allocate 1 4096 false, .construct ⟨4096, 1, []⟩ 0 false]

/-- Its element is constructed over the one that `ObjectPool::allocate` has constructed. -/
theorem not_balanced_oneElement :
    ¬ ∀ (sizeT : ℕ) (u : ℕ → ℕ → ℕ) (memory : ByteMemory) (w : World sizeT), 0 < sizeT →
      Reaches (step u) (fun _ _ => True) (World.initial memory) w → Balanced w := by
  intro h
  have hend : ∃ w : World 8, run (step fun _ _ => 0) (fun _ _ => True) (World.initial fun _ => 0)
      oneElement = some w ∧ w.constructedOver = true := ⟨_, rfl, rfl⟩
  obtain ⟨w, hrun, hover⟩ := hend
  have hfalse := (h 8 _ _ w (by decide) (reaches_of_run hrun)).constructedOver
  rw [hover] at hfalse
  cases hfalse

end NetSentry.PoolAllocator
