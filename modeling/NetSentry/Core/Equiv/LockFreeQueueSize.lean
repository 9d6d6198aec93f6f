import Mathlib.Data.Finset.Card
import NetSentry.Core.Equiv.LockFreeQueue
import NetSentry.Lib.Wrapping

/-!
# The size of the lock-free queue

A value can be popped as soon as its node is linked, and `push_node` increments the size after that.
A `pop` may be the first one to change the size, which then wraps around.

* `Tally`, `Tally.step`: a queue with how many calls have begun and ended.
* `size_of_reaches`: in every run in which no `pop` decrements the size while as many of them have
  done so as pushes have incremented it, the size is at most the number of pushes begun, and the
  queue is only said to hold something if fewer values were popped.
* `size_of_not_inStep`: any other decrement leaves a size of `2 ^ 64 - 1`.
* `not_forall_size`: one push and one pop are enough for that.
-/

namespace NetSentry.LockFreeQueue

open Transition Wrapping

variable {ι α : Type*} [DecidableEq ι]

/-! ### Calls -/

/-- A call of `push` that has not incremented the size yet. -/
def Operation.pushing : Operation α → Bool
  | .loadTail .. | .loadNext .. | .recheckTail .. | .linkNode .. | .helpTail .. | .swingTail ..
  | .addSize => true
  | _ => false

/-- A `push` that is about to increment the size. -/
def Operation.increments : Operation α → Bool
  | .addSize => true
  | _ => false

/-- A `pop` that is about to decrement the size. -/
def Operation.decrements : Operation α → Bool
  | .subSize _ => true
  | _ => false

/-- A queue, and how many calls there have been. -/
structure Tally (ι α : Type*) where
  queue : LockFreeQueue ι α
  /-- The pushes that have begun. -/
  pushesBegun : ℕ
  /-- The pushes that have incremented the size, with which they end. -/
  pushesCompleted : ℕ
  /-- The pops that have decremented the size and return a value. -/
  popsCompleted : ℕ

namespace Tally

/-- The constructor, with the address of the dummy node. -/
def create (dummy : ℕ) : Tally ι α where
  queue := .create dummy
  pushesBegun := 0
  pushesCompleted := 0
  popsCompleted := 0

/-- The next step of a call is the one that changes the size. -/
def count (t : Tally ι α) (queue : LockFreeQueue ι α) : Operation α → Tally ι α
  | .addSize => { t with queue := queue, pushesCompleted := t.pushesCompleted + 1 }
  | .subSize _ => { t with queue := queue, popsCompleted := t.popsCompleted + 1 }
  | _ => { t with queue := queue }

/-- The queue and the numbers after an action, where it can be taken. -/
def step (t : Tally ι α) : Action ι α → Option (Tally ι α)
  | .push i newNode value =>
    (t.queue.step (.push i newNode value)).map fun queue =>
      { t with queue := queue, pushesBegun := t.pushesBegun + 1 }
  | .pop i => (t.queue.step (.pop i)).map fun queue => { t with queue := queue }
  | .advance i spurious =>
    (t.queue.step (.advance i spurious)).map fun queue => t.count queue (t.queue.threads i)

/-- A `pop` that decrements the size finds that more pushes have incremented it. -/
def InStep (t : Tally ι α) : Action ι α → Prop
  | .advance i _ => (t.queue.threads i).decrements = true →
      t.popsCompleted < t.pushesCompleted
  | _ => True

end Tally

/-! ### One step of a call -/

/-- **What one step of a call does to the size.** -/
theorem advance_cases {s t : LockFreeQueue ι α} {i : ι} {spurious : Bool} {op : Operation α}
    (h : s.advance i spurious op = some t) :
    ∃ op', t.threads = Function.update s.threads i op' ∧
      ((op = .addSize ∧ op' = .idle ∧ t.size = s.size + 1) ∨
        (∃ value, op = .subSize (some value) ∧ op' = .returned (some value) ∧
          t.size = s.size - 1) ∨
        (op.increments = false ∧ op.decrements = false ∧ op'.pushing = op.pushing ∧
          t.size = s.size)) := by
  cases op with
  | addSize =>
    obtain rfl := Option.some.inj h
    exact ⟨_, rfl, .inl ⟨rfl, rfl, rfl⟩⟩
  | subSize result =>
    cases result with
    | none => cases h
    | some value =>
      obtain rfl := Option.some.inj h
      exact ⟨_, rfl, .inr (.inl ⟨value, rfl, rfl, rfl⟩)⟩
  | idle => cases h
  | returned result => cases h
  -- the other steps leave the size, and a push goes on being one
  | loadTail | loadHead =>
    obtain rfl := Option.some.inj h
    exact ⟨_, rfl, .inr (.inr ⟨rfl, rfl, rfl, rfl⟩)⟩
  | loadNext | readData | deleteHead =>
    obtain ⟨node, _, rfl⟩ := Option.map_eq_some_iff.mp h
    exact ⟨_, rfl, .inr (.inr ⟨rfl, rfl, rfl, rfl⟩)⟩
  | linkNode | loadHeadNext =>
    obtain ⟨node, _, hnext⟩ := Option.map_eq_some_iff.mp h
    split_ifs at hnext <;> subst hnext <;>
      exact ⟨_, rfl, .inr (.inr ⟨rfl, rfl, rfl, rfl⟩)⟩
  | recheckTail | helpTail | swingTail | moveHead =>
    simp only [advance] at h
    split_ifs at h <;> obtain rfl := Option.some.inj h <;>
      exact ⟨_, rfl, .inr (.inr ⟨rfl, rfl, rfl, rfl⟩)⟩

/-! ### The invariant -/

/-- So many threads are in a push that has not incremented the size. -/
def Pending (threads : ι → Operation α) (n : ℕ) : Prop :=
  ∃ pending : Finset ι, (∀ i, i ∈ pending ↔ (threads i).pushing = true) ∧ pending.card = n

section Pending

variable {threads : ι → Operation α} {n : ℕ} {i : ι} {op : Operation α}

theorem Pending.begin (h : Pending threads n) (hold : (threads i).pushing = false)
    (hop : op.pushing = true) : Pending (Function.update threads i op) (n + 1) := by
  obtain ⟨pending, hmem, rfl⟩ := h
  have hnot : i ∉ pending := by
    rw [hmem, hold]
    decide
  refine ⟨insert i pending, ?_, Finset.card_insert_of_notMem hnot⟩
  apply (Function.forall_update_iff threads
    fun j op => j ∈ insert i pending ↔ op.pushing = true).mpr
  refine ⟨iff_of_true (Finset.mem_insert_self i pending) hop, ?_⟩
  intro j hji
  rw [Finset.mem_insert, or_iff_right hji, hmem]

theorem Pending.complete (h : Pending threads n) (hold : (threads i).pushing = true)
    (hop : op.pushing = false) :
    0 < n ∧ Pending (Function.update threads i op) (n - 1) := by
  obtain ⟨pending, hmem, rfl⟩ := h
  have hin : i ∈ pending := (hmem i).mpr hold
  refine ⟨Finset.card_pos.mpr ⟨i, hin⟩, pending.erase i, ?_, Finset.card_erase_of_mem hin⟩
  apply (Function.forall_update_iff threads
    fun j op => j ∈ pending.erase i ↔ op.pushing = true).mpr
  refine ⟨iff_of_false (Finset.notMem_erase i pending) (by rw [hop]; decide), ?_⟩
  intro j hji
  rw [Finset.mem_erase, and_iff_right hji, hmem]

theorem Pending.update (h : Pending threads n) (hop : op.pushing = (threads i).pushing) :
    Pending (Function.update threads i op) n := by
  obtain ⟨pending, hmem, hcard⟩ := h
  refine ⟨pending, ?_, hcard⟩
  apply (Function.forall_update_iff threads fun j op => j ∈ pending ↔ op.pushing = true).mpr
  exact ⟨by rw [hop, hmem], fun j _ => hmem j⟩

end Pending

/-- **The invariant**: a push that has begun is pending or has incremented the size, and the size is
the difference of the numbers of increments and decrements. -/
structure SizeInv (t : Tally ι α) : Prop where
  pending : ∃ n, Pending t.queue.threads n ∧ n + t.pushesCompleted = t.pushesBegun
  popsCompleted_le : t.popsCompleted ≤ t.pushesCompleted
  size : t.queue.size = UInt64.ofInt (t.pushesCompleted - t.popsCompleted)

omit [DecidableEq ι] in
theorem sizeInv_create (dummy : ℕ) : SizeInv (Tally.create dummy : Tally ι α) where
  pending := ⟨0, ⟨∅, fun _ => iff_of_false (Finset.notMem_empty _) Bool.false_ne_true, rfl⟩, rfl⟩
  popsCompleted_le := Nat.le_refl 0
  size := rfl

theorem pushing_of_ended {op : Operation α} (h : op.ended = true) : op.pushing = false := by
  cases op <;> first | rfl | cases h

omit [DecidableEq ι] in
theorem Tally.count_of_not_counted {t : Tally ι α} {queue : LockFreeQueue ι α}
    {op : Operation α} (hadd : op.increments = false) (hsub : op.decrements = false) :
    t.count queue op = { t with queue := queue } := by
  cases op with
  | addSize => cases hadd
  | subSize result => cases hsub
  | _ => rfl

section Steps

variable {t t' : Tally ι α} {queue : LockFreeQueue ι α} {i : ι}

/-- A push increments the size. -/
theorem SizeInv.addSize (h : SizeInv t) (hop : t.queue.threads i = .addSize)
    (hthreads : queue.threads = Function.update t.queue.threads i .idle)
    (hsize : queue.size = t.queue.size + 1) : SizeInv (t.count queue .addSize) := by
  obtain ⟨n, hpending, hn⟩ := h.pending
  have hpushing : (t.queue.threads i).pushing = true := by
    rw [hop]
    rfl
  have hidle : (Operation.idle : Operation α).pushing = false := rfl
  obtain ⟨hpos, hless⟩ := hpending.complete hpushing hidle
  constructor
  · refine ⟨n - 1, hthreads ▸ hless, ?_⟩
    show n - 1 + (t.pushesCompleted + 1) = t.pushesBegun
    omega
  · exact h.popsCompleted_le.trans (Nat.le_succ _)
  · show queue.size = UInt64.ofInt ((t.pushesCompleted + 1 : ℕ) - t.popsCompleted)
    rw [hsize, h.size, ← UInt64.ofInt_one, ← UInt64.ofInt_add]
    congr 1
    omega

/-- A pop decrements the size, and more pushes have incremented it. -/
theorem SizeInv.subSize (h : SizeInv t) (hlt : t.popsCompleted < t.pushesCompleted)
    {result : Option α} (hop : t.queue.threads i = .subSize result)
    (hthreads : queue.threads = Function.update t.queue.threads i (.returned result))
    (hsize : queue.size = t.queue.size - 1) : SizeInv (t.count queue (.subSize result)) := by
  obtain ⟨n, hpending, hn⟩ := h.pending
  constructor
  · refine ⟨n, hthreads ▸ hpending.update ?_, hn⟩
    rw [hop]
    rfl
  · exact hlt
  · show queue.size = UInt64.ofInt (t.pushesCompleted - (t.popsCompleted + 1 : ℕ))
    rw [hsize, h.size, ← UInt64.ofInt_one, ← ofInt_sub]
    congr 1
    omega

/-- **One step keeps the invariant.** -/
theorem sizeInv_step {a : Action ι α} (h : SizeInv t) (hguard : t.InStep a)
    (hstep : t.step a = some t') : SizeInv t' := by
  cases a with
  | push i newNode value =>
    obtain ⟨queue, hqueue, rfl⟩ := Option.map_eq_some_iff.mp hstep
    simp only [LockFreeQueue.step] at hqueue
    split_ifs at hqueue with hcond
    obtain rfl := Option.some.inj hqueue
    obtain ⟨n, hpending, hn⟩ := h.pending
    exact ⟨⟨n + 1, hpending.begin (pushing_of_ended hcond.1) rfl, by dsimp only; omega⟩,
      h.popsCompleted_le, h.size⟩
  | pop i =>
    obtain ⟨queue, hqueue, rfl⟩ := Option.map_eq_some_iff.mp hstep
    simp only [LockFreeQueue.step] at hqueue
    split_ifs at hqueue with hended
    obtain rfl := Option.some.inj hqueue
    obtain ⟨n, hpending, hn⟩ := h.pending
    exact ⟨⟨n, hpending.update (pushing_of_ended hended).symm, hn⟩, h.popsCompleted_le, h.size⟩
  | advance i spurious =>
    obtain ⟨queue, hqueue, rfl⟩ := Option.map_eq_some_iff.mp hstep
    obtain ⟨op', hthreads, ⟨hop, rfl, hsize⟩ | ⟨value, hop, rfl, hsize⟩ |
      ⟨hadd, hsub, hpush, hsize⟩⟩ := advance_cases hqueue
    · rw [hop]
      exact h.addSize hop hthreads hsize
    · have hlt := hguard (by rw [hop]; rfl)
      rw [hop]
      exact h.subSize hlt hop hthreads hsize
    · rw [Tally.count_of_not_counted hadd hsub]
      obtain ⟨n, hpending, hn⟩ := h.pending
      exact ⟨⟨n, hthreads ▸ hpending.update hpush, hn⟩, h.popsCompleted_le,
        hsize.trans h.size⟩

end Steps

/-! ### Runs -/

theorem sizeInv_of_reaches {dummy : ℕ} {t : Tally ι α}
    (h : Reaches Tally.step Tally.InStep (Tally.create dummy) t) : SizeInv t :=
  h.invariant (fun _ _ _ hinv hguard hstep => sizeInv_step hinv hguard hstep)
    (sizeInv_create dummy)

/-- **The size of the queue**, in every run in which a `pop` decrements it only while fewer have
done so than pushes have incremented it: it is at most the number of pushes begun, and the queue is
said to hold something only if more pushes have begun than values were popped. -/
theorem size_of_reaches {dummy : ℕ} {t : Tally ι α}
    (h : Reaches Tally.step Tally.InStep (Tally.create dummy) t) :
    t.queue.size.toNat ≤ t.pushesBegun ∧
      (t.queue.empty = false → t.popsCompleted < t.pushesBegun) := by
  have hinv := sizeInv_of_reaches h
  obtain ⟨n, _, hn⟩ := hinv.pending
  have hle := hinv.popsCompleted_le
  have hsize := toNat_ofInt (t.pushesCompleted - t.popsCompleted)
  rw [← hinv.size] at hsize
  constructor
  · omega
  · intro hempty
    have hne : t.queue.size ≠ 0 := of_decide_eq_false hempty
    have hpos : t.queue.size.toNat ≠ 0 := fun hnull => hne (UInt64.toNat_inj.mp hnull)
    omega

instance (t : Tally ι α) : ∀ a, Decidable (t.InStep a)
  | .advance i _ => inferInstanceAs (Decidable ((t.queue.threads i).decrements = true → _))
  | .push .. | .pop .. => inferInstanceAs (Decidable True)

theorem size_of_reaches_popDuringSecondPush :
    ∃ t : Tally (Fin 2) ℕ,
      run Tally.step Tally.InStep (Tally.create 1) popDuringSecondPush = some t ∧
      t.pushesBegun = 2 ∧ t.popsCompleted = 1 ∧ t.queue.size.toNat ≤ 2 := by
  obtain ⟨t, ht, hpushes, hpops⟩ : ∃ t : Tally (Fin 2) ℕ,
      run Tally.step Tally.InStep (Tally.create 1) popDuringSecondPush = some t ∧
      t.pushesBegun = 2 ∧ t.popsCompleted = 1 := ⟨_, rfl, rfl, rfl⟩
  have hsize := (size_of_reaches (reaches_of_run ht)).1
  rw [hpushes] at hsize
  exact ⟨t, ht, hpushes, hpops, hsize⟩

/-- **Any other decrement** is made of a size of zero. -/
theorem size_of_not_inStep {dummy : ℕ} {t t' : Tally ι α} {a : Action ι α}
    (h : Reaches Tally.step Tally.InStep (Tally.create dummy) t) (hguard : ¬ t.InStep a)
    (hstep : t.step a = some t') : t'.queue.size.toNat = 2 ^ 64 - 1 := by
  have hinv := sizeInv_of_reaches h
  have hle := hinv.popsCompleted_le
  cases a with
  | push i newNode value => exact absurd trivial hguard
  | pop i => exact absurd trivial hguard
  | advance i spurious =>
    obtain ⟨hdecrements, hnot⟩ := Classical.not_imp.mp hguard
    have hzero : t.queue.size = 0 := by
      rw [hinv.size, show (t.pushesCompleted : ℤ) - t.popsCompleted = 0 by omega]
      rfl
    obtain ⟨queue, hqueue, rfl⟩ := Option.map_eq_some_iff.mp hstep
    obtain ⟨op', _, ⟨hop, _⟩ | ⟨value, hop, _, hsize⟩ | ⟨_, hsub, _⟩⟩ := advance_cases hqueue
    · rw [hop] at hdecrements
      cases hdecrements
    · rw [hop]
      show queue.size.toNat = _
      rw [hsize, hzero]
      rfl
    · rw [hsub] at hdecrements
      cases hdecrements

/-- One thread has linked a node and has not incremented the size yet; the other one pops the
value. -/
def popBeforeCount : List (Action (Fin 2) ℕ) :=
  .push firstThread 2 7 :: List.replicate 5 (.advance firstThread false) ++
    .pop secondThread :: List.replicate 6 (.advance secondThread false)

theorem not_forall_size :
    ¬ ∀ t : Tally (Fin 2) ℕ, Reaches Tally.step (fun _ _ => True) (Tally.create 1) t →
      t.queue.size.toNat ≤ t.pushesBegun ∧
        (t.queue.empty = false → t.popsCompleted < t.pushesBegun) := by
  intro h
  obtain ⟨t, ht, hpushes, hsize⟩ : ∃ t : Tally (Fin 2) ℕ,
      run Tally.step (fun _ _ => True) (Tally.create 1) popBeforeCount = some t ∧
      t.pushesBegun = 1 ∧ t.queue.size.toNat = 2 ^ 64 - 1 := ⟨_, rfl, rfl, by decide⟩
  have hle := (h t (reaches_of_run ht)).1
  omega

end NetSentry.LockFreeQueue
