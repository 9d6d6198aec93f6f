import NetSentry.Core.LockFreeQueue
import NetSentry.Lib.LinkedChain
import NetSentry.Lib.Transition

/-!
# The nodes of the lock-free queue

`pop` moves `head_` on and deletes the old node without a look at `tail_` or at the other
operations.  `Undisturbed` says of a step that this does no harm, and that no compare-exchange takes
the node at a re-used address for the one that was there before.

* `head_tail_live`: in every run of such steps `head_` and `tail_` designate existing nodes, `tail_`
  is reached from `head_`, and no step reads or deletes a node that does not exist.
* `not_forall_head_tail_live`: one push and one pop are enough for a run in which `tail_` is left on
  a deleted node.

`Inv` is what the steps keep: the chain from `head_` ends, it visits `tail_`, and each call has what
it needs (`CallInv`).
-/

namespace NetSentry.LockFreeQueue

open Transition

variable {ι α : Type*} [DecidableEq ι] {s t : LockFreeQueue ι α}

/-! ### Nodes -/

theorem nextIn_of_eq_some {heap : ℕ → Option (Node α)} {x : ℕ} {node : Node α}
    (h : heap x = some node) : nextIn heap x = node.next := by
  rw [nextIn, h, Option.elim_some]

theorem nextIn_update_some (heap : ℕ → Option (Node α)) (x : ℕ) (node : Node α) :
    nextIn (Function.update heap x (some node)) = Function.update (nextIn heap) x node.next := by
  funext y
  unfold nextIn
  by_cases hyx : y = x
  · subst hyx
    rw [Function.update_self, Function.update_self, Option.elim_some]
  · rw [Function.update_of_ne hyx, Function.update_of_ne hyx]

theorem nextIn_update_of_ne (heap : ℕ → Option (Node α)) {x y : ℕ} (node : Option (Node α))
    (h : y ≠ x) : nextIn (Function.update heap x node) y = nextIn heap y := by
  unfold nextIn
  rw [Function.update_of_ne h]

/-- A node that exists is not the one that `new` returns. -/
theorem ne_of_isNone {heap : ℕ → Option (Node α)} {newNode x : ℕ} (hfresh : (heap newNode).isNone)
    (hx : (heap x).isSome) : x ≠ newNode := by
  rintro rfl
  rw [Option.isNone_iff_eq_none.mp hfresh] at hx
  cases hx

theorem isSome_update {heap : ℕ → Option (Node α)} {x y : ℕ} (node : Node α)
    (h : (heap y).isSome) : (Function.update heap x (some node) y).isSome := by
  by_cases hyx : y = x
  · subst hyx
    rw [Function.update_self]
    rfl
  · rwa [Function.update_of_ne hyx]

theorem isSome_update_self (heap : ℕ → Option (Node α)) (x : ℕ) (node : Node α) :
    (Function.update heap x (some node) x).isSome := by
  rw [Function.update_self]
  rfl

/-! ### The invariant -/

/-- The node that only this call may link or delete: one that is not linked yet, or the old head. -/
def Operation.owned : Operation α → Option ℕ
  | .loadTail newNode _ | .loadNext newNode _ _ | .recheckTail newNode _ _ _
  | .linkNode newNode _ _ | .helpTail newNode _ _ _ => some newNode
  | .readData oldHead _ | .deleteHead oldHead _ => some oldHead
  | _ => none

/-- What the local variables of a call say about the nodes. -/
def Operation.Sound (next : ℕ → ℕ) (queue : List ℕ) : Operation α → Prop
  | .loadTail newNode _ | .loadNext newNode _ _ | .recheckTail newNode _ _ _ => next newNode = 0
  | .linkNode newNode _ oldTail => next newNode = 0 ∧ (oldTail ∈ queue ∨ next oldTail ≠ 0)
  | .helpTail newNode _ _ next' => next newNode = 0 ∧ next' ≠ 0
  | .swingTail newNode _ => newNode ≠ 0
  | .moveHead _ nextNode => nextNode ≠ 0
  | _ => True

/-- What a call needs of the nodes. -/
structure CallInv (heap : ℕ → Option (Node α)) (queue : List ℕ) (op : Operation α) : Prop where
  accessed : ∀ x, op.accessed = some x → (heap x).isSome
  owned : ∀ x, op.owned = some x → x ≠ 0 ∧ (heap x).isSome ∧ x ∉ queue
  sound : op.Sound (nextIn heap) queue

/-- The chain from `head_` ends and visits `tail_`, its nodes exist, and each call has what it
needs. -/
structure Inv (s : LockFreeQueue ι α) (queue : List ℕ) : Prop where
  chain : Chain (nextIn s.heap) 0 s.head queue
  tail_mem : s.tail ∈ queue
  live : ∀ x ∈ queue, (s.heap x).isSome
  calls : ∀ i, CallInv s.heap queue (s.threads i)
  distinct : ∀ i j x, (s.threads i).owned = some x → (s.threads j).owned = some x → i = j

/-- A call that nothing happens to: its nodes still exist, and they have the successors they had. -/
theorem CallInv.frame {heap heap' : ℕ → Option (Node α)} {queue queue' : List ℕ}
    {op : Operation α} (h : CallInv heap queue op)
    (haccessed : ∀ x, op.accessed = some x → (heap x).isSome → (heap' x).isSome)
    (howned : ∀ x, op.owned = some x → (heap x).isSome → x ∉ queue →
      (heap' x).isSome ∧ x ∉ queue' ∧ nextIn heap' x = nextIn heap x)
    (hlinked : ∀ x, op.accessed = some x → (x ∈ queue ∨ nextIn heap x ≠ 0) →
      (x ∈ queue' ∨ nextIn heap' x ≠ 0)) : CallInv heap' queue' op where
  accessed := fun x hx => haccessed x hx (h.accessed x hx)
  owned := by
    intro x hx
    obtain ⟨hne, hlive, hnot⟩ := h.owned x hx
    obtain ⟨hlive', hnot', _⟩ := howned x hx hlive hnot
    exact ⟨hne, hlive', hnot'⟩
  sound := by
    have hnext : ∀ x, op.owned = some x → nextIn heap' x = nextIn heap x := by
      intro x hx
      obtain ⟨_, hlive, hnot⟩ := h.owned x hx
      exact (howned x hx hlive hnot).2.2
    have hsound := h.sound
    cases op with
    | loadTail newNode _ => exact (hnext newNode rfl).trans hsound
    | loadNext newNode _ _ => exact (hnext newNode rfl).trans hsound
    | recheckTail newNode _ _ _ => exact (hnext newNode rfl).trans hsound
    | linkNode newNode _ oldTail =>
      exact ⟨(hnext newNode rfl).trans hsound.1, hlinked oldTail rfl hsound.2⟩
    | helpTail newNode _ _ _ => exact ⟨(hnext newNode rfl).trans hsound.1, hsound.2⟩
    | swingTail _ _ => exact hsound
    | moveHead _ _ => exact hsound
    | _ => trivial

/-- **One call goes on**: the invariant holds again when the call has what it needs, and the others
still have. -/
theorem Inv.move {queue queue' : List ℕ} (h : Inv s queue) {i : ι} {op : Operation α}
    (hthreads : t.threads = Function.update s.threads i op)
    (hchain : Chain (nextIn t.heap) 0 t.head queue') (htail : t.tail ∈ queue')
    (hlive : ∀ x ∈ queue', (t.heap x).isSome) (hop : CallInv t.heap queue' op)
    (hothers : ∀ j, j ≠ i → CallInv t.heap queue' (s.threads j))
    (howned : ∀ x, op.owned = some x → ∀ j, j ≠ i → (s.threads j).owned ≠ some x) :
    Inv t queue' where
  chain := hchain
  tail_mem := htail
  live := hlive
  calls := by
    rw [hthreads]
    apply (Function.forall_update_iff s.threads fun _ op => CallInv t.heap queue' op).mpr
    exact ⟨hop, hothers⟩
  distinct := by
    intro j k x hj hk
    rw [hthreads] at hj hk
    by_cases hji : j = i
    · subst hji
      rw [Function.update_self] at hj
      by_contra hjk
      rw [Function.update_of_ne (Ne.symm hjk)] at hk
      exact howned x hj k (Ne.symm hjk) hk
    · rw [Function.update_of_ne hji] at hj
      by_cases hki : k = i
      · subst hki
        rw [Function.update_self] at hk
        exact absurd hj (howned x hk j hji)
      · rw [Function.update_of_ne hki] at hk
        exact h.distinct j k x hj hk

/-- A call goes on without a change to the queue. -/
theorem Inv.goto {queue : List ℕ} (h : Inv s queue) {i : ι} {old op : Operation α}
    (hold : s.threads i = old) (hop : CallInv s.heap queue op)
    (howned : ∀ x, op.owned = some x → old.owned = some x) : Inv (s.goto i op) queue := by
  subst hold
  exact h.move rfl h.chain h.tail_mem h.live hop (fun j _ => h.calls j)
    fun x hx j hji hj => hji (h.distinct j i x hj (howned x hx))

omit [DecidableEq ι] in
/-- The queue does not change with `tail_`, the counter or the threads. -/
theorem Inv.queue_eq {queue queue' : List ℕ} (h : Inv s queue) (h' : Inv t queue')
    (hheap : t.heap = s.heap) (hhead : t.head = s.head) : queue' = queue := by
  have hchain := h'.chain
  rw [hheap, hhead] at hchain
  exact hchain.unique h.chain

omit [DecidableEq ι] in
theorem inv_create {dummy : ℕ} (hdummy : dummy ≠ 0) :
    Inv (create dummy : LockFreeQueue ι α) [dummy] where
  chain := by
    apply Chain.cons hdummy
    rw [create, nextIn_update_some, Function.update_self]
    exact .nil
  tail_mem := List.mem_singleton_self dummy
  live := by
    intro x hx
    obtain rfl := List.mem_singleton.mp hx
    exact isSome_update_self (fun _ => none) x ⟨none, 0⟩
  calls := fun _ => ⟨nofun, nofun, trivial⟩
  distinct := fun _ _ _ h => nomatch h

/-! ### Steps that change the queue -/

section Steps

variable {queue : List ℕ} {i : ι}

/-- `new` makes a node that nobody refers to. -/
theorem Inv.push (h : Inv s queue) {newNode : ℕ} (value : α) (hne : newNode ≠ 0)
    (hfresh : (s.heap newNode).isNone) :
    Inv ({ s with heap := Function.update s.heap newNode (some ⟨some value, 0⟩) }.goto i
      (.loadTail newNode 0)) queue := by
  have hother : ∀ x, (s.heap x).isSome → x ≠ newNode := fun x => ne_of_isNone hfresh
  have hnext : ∀ x, (s.heap x).isSome →
      nextIn (Function.update s.heap newNode (some ⟨some value, 0⟩)) x = nextIn s.heap x :=
    fun x hx => nextIn_update_of_ne s.heap _ (hother x hx)
  refine h.move rfl ?_ h.tail_mem ?_ ?_ ?_ ?_
  · exact h.chain.congr fun x hx => hnext x (h.live x hx)
  · intro x hx
    exact isSome_update _ (h.live x hx)
  · refine ⟨nofun, ?_, ?_⟩
    · intro x hx
      obtain rfl := Option.some.inj hx
      exact ⟨hne, isSome_update_self _ _ _, fun hmem => hother newNode (h.live newNode hmem) rfl⟩
    · show nextIn (Function.update s.heap newNode _) newNode = 0
      rw [nextIn_update_some, Function.update_self]
  · intro j _
    apply (h.calls j).frame
    · intro x _ hx
      exact isSome_update _ hx
    · intro x _ hx hnot
      exact ⟨isSome_update _ hx, hnot, hnext x hx⟩
    · intro x hx hlinked
      show x ∈ queue ∨ nextIn (Function.update s.heap newNode _) x ≠ 0
      rwa [hnext x ((h.calls j).accessed x hx)]
  · intro x hx j _ hj
    obtain rfl := Option.some.inj hx
    exact hother newNode ((h.calls j).owned newNode hj).2.1 rfl

/-- The new node becomes the last one. -/
theorem Inv.linkNode (h : Inv s queue) {newNode nullNode oldTail : ℕ} {node : Node α}
    (hop : s.threads i = .linkNode newNode nullNode oldTail) (hnode : s.heap oldTail = some node)
    (hlast : node.next = 0) :
    Inv ({ s with heap := Function.update s.heap oldTail (some { node with next := newNode }) }.goto
      i (.swingTail newNode oldTail)) (queue ++ [newNode]) := by
  have hcall := h.calls i
  rw [hop] at hcall
  obtain ⟨hne, hlive, hnot⟩ := hcall.owned newNode rfl
  obtain ⟨hnew, hlinked⟩ := hcall.sound
  -- a node in the chain, or one that left it, has a successor unless it is the last one
  have hnull : nextIn s.heap oldTail = 0 := (nextIn_of_eq_some hnode).trans hlast
  have hmem : oldTail ∈ queue := hlinked.resolve_right fun hne => hne hnull
  obtain ⟨ys, rfl⟩ := h.chain.eq_append_of_next_eq_null hmem hnull
  have hchain := h.chain.append hne hnot hnew
  refine h.move rfl ?_ (List.mem_append_left _ h.tail_mem) ?_ ⟨nofun, nofun, hne⟩ ?_ nofun
  · show Chain (nextIn (Function.update s.heap oldTail _)) 0 s.head _
    rw [nextIn_update_some]
    exact hchain
  · intro x hx
    rcases List.mem_append.mp hx with hx | hx
    · exact isSome_update _ (h.live x hx)
    · exact isSome_update _ (List.mem_singleton.mp hx ▸ hlive)
  · intro j hji
    apply (h.calls j).frame
    · intro x _ hx
      exact isSome_update _ hx
    · intro x hx hxLive hxNot
      have hxNew : x ≠ newNode := by
        rintro rfl
        exact hji (h.distinct j i x hx (by rw [hop]; rfl))
      have hxOld : x ≠ oldTail := by
        rintro rfl
        exact hxNot hmem
      refine ⟨isSome_update _ hxLive, ?_, nextIn_update_of_ne s.heap _ hxOld⟩
      intro hx
      rcases List.mem_append.mp hx with hx | hx
      · exact hxNot hx
      · exact hxNew (List.mem_singleton.mp hx)
    · intro x _ hx
      rcases hx with hx | hx
      · exact .inl (List.mem_append_left _ hx)
      · -- `old_tail` gets a successor, no other node loses its own
        right
        show nextIn (Function.update s.heap oldTail _) x ≠ 0
        by_cases hxOld : x = oldTail
        · exact absurd (hxOld ▸ hnull) hx
        · rwa [nextIn_update_of_ne s.heap _ hxOld]

/-- `tail_` moves on to the successor of the node it designates. -/
theorem Inv.setTail (h : Inv s queue) {next : ℕ} {old op : Operation α}
    (hnext : nextIn s.heap s.tail = next) (hne : next ≠ 0) (hold : s.threads i = old)
    (hop : CallInv s.heap queue op) (howned : ∀ x, op.owned = some x → old.owned = some x) :
    Inv ({ s with tail := next }.goto i op) queue := by
  subst hold
  have hmem : next ∈ queue := hnext ▸ h.chain.next_mem h.tail_mem (hnext ▸ hne)
  exact h.move rfl h.chain hmem h.live hop (fun j _ => h.calls j)
    fun x hx j hji hj => hji (h.distinct j i x hj (howned x hx))

/-- `head_` moves on, and `tail_` is not left behind. -/
theorem Inv.moveHead (h : Inv s queue) {nextNode : ℕ} (hne : nextNode ≠ 0)
    (htail : s.tail ≠ s.head) (hnext : nextIn s.heap s.head = nextNode) :
    ∃ queue', Inv ({ s with head := nextNode }.goto i (.readData s.head nextNode)) queue' := by
  have hhead := h.chain.start_mem h.tail_mem
  have hheadNe := h.chain.ne_null hhead
  have hnodup := h.chain.nodup
  obtain ⟨rest, rfl, hrest⟩ := h.chain.exists_cons hheadNe
  rw [hnext] at hrest
  obtain ⟨rest', hrestEq, _⟩ := hrest.exists_cons hne
  have hnot : s.head ∉ rest := (List.nodup_cons.mp hnodup).1
  refine ⟨rest, h.move rfl hrest ?_ ?_ ?_ ?_ ?_⟩
  · exact (List.mem_cons.mp h.tail_mem).resolve_left htail
  · intro x hx
    exact h.live x (List.mem_cons_of_mem _ hx)
  · refine ⟨?_, ?_, trivial⟩
    · intro x hx
      obtain rfl := Option.some.inj hx
      exact h.live nextNode (List.mem_cons_of_mem _ (hrestEq ▸ List.mem_cons_self))
    · intro x hx
      obtain rfl := Option.some.inj hx
      exact ⟨hheadNe, h.live s.head hhead, hnot⟩
  · intro j _
    apply (h.calls j).frame (fun x _ hx => hx)
    · intro x _ hx hxNot
      exact ⟨hx, fun hmem => hxNot (List.mem_cons_of_mem _ hmem), rfl⟩
    · -- the old head has a successor
      intro x _ hx
      rcases hx with hx | hx
      · rcases List.mem_cons.mp hx with rfl | hx
        · exact .inr (hnext ▸ hne)
        · exact .inl hx
      · exact .inr hx
  · intro x hx j _ hj
    obtain rfl := Option.some.inj hx
    exact ((h.calls j).owned s.head hj).2.2 hhead

/-- The old head is deleted while no other call is about to access it. -/
theorem Inv.deleteHead (h : Inv s queue) {oldHead : ℕ} {result : Option α}
    (hop : s.threads i = .deleteHead oldHead result)
    (hunused : ∀ j, j ≠ i → (s.threads j).accessed ≠ some oldHead) :
    Inv ({ s with heap := Function.update s.heap oldHead none }.goto i (.subSize result))
      queue := by
  have hcall := h.calls i
  rw [hop] at hcall
  obtain ⟨_, _, hnot⟩ := hcall.owned oldHead rfl
  have hne : ∀ x ∈ queue, x ≠ oldHead := by
    rintro x hx rfl
    exact hnot hx
  have hlive : ∀ x, x ≠ oldHead → (s.heap x).isSome →
      (Function.update s.heap oldHead none x).isSome := by
    intro x hx hsome
    rwa [Function.update_of_ne hx]
  refine h.move rfl ?_ h.tail_mem ?_ ⟨nofun, nofun, trivial⟩ ?_ nofun
  · exact h.chain.congr fun x hx => nextIn_update_of_ne s.heap none (hne x hx)
  · intro x hx
    exact hlive x (hne x hx) (h.live x hx)
  · intro j hji
    have haccessed : ∀ x, (s.threads j).accessed = some x → x ≠ oldHead := by
      rintro x hx rfl
      exact hunused j hji hx
    apply (h.calls j).frame
    · intro x hx hsome
      exact hlive x (haccessed x hx) hsome
    · intro x hx hsome hxNot
      have hxOld : x ≠ oldHead := by
        rintro rfl
        exact hji (h.distinct j i x hx (by rw [hop]; rfl))
      exact ⟨hlive x hxOld hsome, hxNot, nextIn_update_of_ne s.heap none hxOld⟩
    · intro x hx hlinked
      show x ∈ queue ∨ nextIn (Function.update s.heap oldHead none) x ≠ 0
      rwa [nextIn_update_of_ne s.heap none (haccessed x hx)]

end Steps

/-! ### Runs -/

/-- The next step of the call that thread `i` is in does no harm: `head_` is not moved past `tail_`;
no node is deleted that another call is about to access; and a compare-exchange that finds the
pointer it expects finds the node with the successor that the call has read or made, not another
node at the same address. -/
def Harmless (s : LockFreeQueue ι α) (i : ι) (spurious : Bool) : Operation α → Prop
  | .linkNode _ nullNode oldTail =>
    nextIn s.heap oldTail = nullNode → spurious = false → nullNode = 0
  | .helpTail _ _ oldTail next =>
    s.tail = oldTail → spurious = false → nextIn s.heap oldTail = next
  | .swingTail newNode oldTail =>
    s.tail = oldTail → spurious = false → nextIn s.heap oldTail = newNode
  | .moveHead oldHead nextNode =>
    s.head = oldHead → spurious = false → s.tail ≠ oldHead ∧ nextIn s.heap oldHead = nextNode
  | .deleteHead oldHead _ => ∀ j, j ≠ i → (s.threads j).accessed ≠ some oldHead
  | _ => True

/-- An action does no harm. -/
def Undisturbed (s : LockFreeQueue ι α) : Action ι α → Prop
  | .advance i spurious => s.Harmless i spurious (s.threads i)
  | _ => True

/-- **One step of a call** keeps the invariant when it does no harm. -/
theorem inv_advance {queue : List ℕ} (h : Inv s queue) {i : ι} {spurious : Bool}
    (hharmless : s.Harmless i spurious (s.threads i))
    (hstep : s.advance i spurious (s.threads i) = some t) : ∃ queue', Inv t queue' := by
  have hcall := h.calls i
  -- what a load of `head_` or `tail_` returns is a node
  have hhead : ∀ x, some s.head = some x → (s.heap x).isSome := by
    rintro x ⟨⟩
    exact h.live s.head (h.chain.start_mem h.tail_mem)
  have htail : ∀ x, some s.tail = some x → (s.heap x).isSome := by
    rintro x ⟨⟩
    exact h.live s.tail h.tail_mem
  generalize hop : s.threads i = op at hcall hharmless hstep
  cases op with
  | idle => cases hstep
  | returned result => cases hstep
  | loadTail newNode nullNode =>
    obtain rfl := Option.some.inj hstep
    exact ⟨queue, h.goto hop ⟨htail, hcall.owned, hcall.sound⟩ fun _ h => h⟩
  | loadNext newNode nullNode oldTail =>
    obtain ⟨node, _, rfl⟩ := Option.map_eq_some_iff.mp hstep
    exact ⟨queue, h.goto hop ⟨nofun, hcall.owned, hcall.sound⟩ fun _ h => h⟩
  | recheckTail newNode nullNode oldTail next =>
    simp only [advance] at hstep
    split_ifs at hstep with hsame hnull
    · obtain rfl := Option.some.inj hstep
      subst hsame
      exact ⟨queue, h.goto hop ⟨htail, hcall.owned, hcall.sound, .inl h.tail_mem⟩
        fun _ h => h⟩
    · obtain rfl := Option.some.inj hstep
      exact ⟨queue, h.goto hop ⟨nofun, hcall.owned, hcall.sound, hnull⟩
        fun _ h => h⟩
    · obtain rfl := Option.some.inj hstep
      exact ⟨queue, h.goto hop ⟨nofun, hcall.owned, hcall.sound⟩ fun _ h => h⟩
  | linkNode newNode nullNode oldTail =>
    obtain ⟨node, hnode, hnext⟩ := Option.map_eq_some_iff.mp hstep
    split_ifs at hnext with hfound
    · subst hnext
      have hnull : nullNode = 0 :=
        hharmless ((nextIn_of_eq_some hnode).trans hfound.1) (by simpa using hfound.2)
      exact ⟨_, h.linkNode hop hnode (hfound.1.trans hnull)⟩
    · subst hnext
      exact ⟨queue, h.goto hop ⟨nofun, hcall.owned, hcall.sound.1⟩ fun _ h => h⟩
  | helpTail newNode nullNode oldTail next =>
    have hop' : CallInv s.heap queue (.loadTail newNode nullNode) :=
      ⟨nofun, hcall.owned, hcall.sound.1⟩
    simp only [advance] at hstep
    split_ifs at hstep with hfound
    · obtain rfl := Option.some.inj hstep
      have hnext : nextIn s.heap s.tail = next :=
        hfound.1 ▸ hharmless hfound.1 (by simpa using hfound.2)
      exact ⟨queue, h.setTail hnext hcall.sound.2 hop hop' fun _ h => h⟩
    · obtain rfl := Option.some.inj hstep
      exact ⟨queue, h.goto hop hop' fun _ h => h⟩
  | swingTail newNode oldTail =>
    simp only [advance] at hstep
    split_ifs at hstep with hfound
    · obtain rfl := Option.some.inj hstep
      have hnext : nextIn s.heap s.tail = newNode :=
        hfound.1 ▸ hharmless hfound.1 (by simpa using hfound.2)
      exact ⟨queue, h.setTail hnext hcall.sound hop ⟨nofun, nofun, trivial⟩ nofun⟩
    · obtain rfl := Option.some.inj hstep
      exact ⟨queue, h.goto hop ⟨nofun, nofun, trivial⟩ nofun⟩
  | addSize =>
    obtain rfl := Option.some.inj hstep
    exact ⟨queue, h.move rfl h.chain h.tail_mem h.live ⟨nofun, nofun, trivial⟩
      (fun j _ => h.calls j) nofun⟩
  | loadHead =>
    obtain rfl := Option.some.inj hstep
    exact ⟨queue, h.goto hop ⟨hhead, nofun, trivial⟩ nofun⟩
  | loadHeadNext oldHead =>
    obtain ⟨node, _, hnext⟩ := Option.map_eq_some_iff.mp hstep
    split_ifs at hnext with hnull
    · subst hnext
      exact ⟨queue, h.goto hop ⟨nofun, nofun, trivial⟩ nofun⟩
    · subst hnext
      exact ⟨queue, h.goto hop ⟨nofun, nofun, hnull⟩ nofun⟩
  | moveHead oldHead nextNode =>
    simp only [advance] at hstep
    split_ifs at hstep with hfound
    · obtain rfl := Option.some.inj hstep
      obtain ⟨hne, hnext⟩ := hharmless hfound.1 (by simpa using hfound.2)
      obtain rfl := hfound.1
      exact h.moveHead hcall.sound hne hnext
    · -- the compare-exchange has loaded `head_`
      obtain rfl := Option.some.inj hstep
      exact ⟨queue, h.goto hop ⟨hhead, nofun, trivial⟩ nofun⟩
  | readData oldHead nextNode =>
    obtain ⟨node, _, rfl⟩ := Option.map_eq_some_iff.mp hstep
    refine ⟨queue, h.goto hop ⟨?_, hcall.owned, trivial⟩ fun _ h => h⟩
    intro x hx
    exact (hcall.owned x hx).2.1
  | deleteHead oldHead result =>
    obtain ⟨node, _, rfl⟩ := Option.map_eq_some_iff.mp hstep
    exact ⟨queue, h.deleteHead hop hharmless⟩
  | subSize result =>
    cases result with
    | none => cases hstep
    | some value =>
      obtain rfl := Option.some.inj hstep
      exact ⟨queue, h.move rfl h.chain h.tail_mem h.live ⟨nofun, nofun, trivial⟩
        (fun j _ => h.calls j) nofun⟩

/-- **One step keeps the invariant** when it does no harm. -/
theorem inv_step {queue : List ℕ} (h : Inv s queue) {a : Action ι α}
    (hundisturbed : Undisturbed s a) (hstep : step s a = some t) : ∃ queue', Inv t queue' := by
  cases a with
  | push i newNode value =>
    simp only [step] at hstep
    split_ifs at hstep with hcond
    obtain rfl := Option.some.inj hstep
    exact ⟨queue, h.push value hcond.2.1 hcond.2.2⟩
  | pop i =>
    simp only [step] at hstep
    split_ifs at hstep
    obtain rfl := Option.some.inj hstep
    exact ⟨queue, h.goto rfl ⟨nofun, nofun, trivial⟩ nofun⟩
  | advance i spurious => exact inv_advance h hundisturbed hstep

/-- **`head_` and `tail_` designate nodes that exist**, `tail_` is reached from `head_`, and every
node that a step reads, writes or deletes exists, in every run whose steps do no harm. -/
theorem head_tail_live {dummy : ℕ} (hdummy : dummy ≠ 0)
    (h : Reaches step Undisturbed (create dummy) s) :
    (s.heap s.head).isSome ∧ (s.heap s.tail).isSome ∧
    Relation.ReflTransGen (fun x y => nextIn s.heap x = y) s.head s.tail ∧
    ∀ i x, (s.threads i).accessed = some x → (s.heap x).isSome := by
  have hkeep : ∀ (s : LockFreeQueue ι α) a t, (∃ queue, Inv s queue) → Undisturbed s a →
      step s a = some t → ∃ queue, Inv t queue := by
    rintro s a t ⟨queue, hinv⟩ hundisturbed hstep
    exact inv_step hinv hundisturbed hstep
  obtain ⟨queue, hinv⟩ := h.invariant hkeep ⟨[dummy], inv_create hdummy⟩
  have hhead := hinv.chain.start_mem hinv.tail_mem
  exact ⟨hinv.live s.head hhead, hinv.live s.tail hinv.tail_mem, hinv.chain.reaches hinv.tail_mem,
    fun i x hx => (hinv.calls i).accessed x hx⟩

/-! ### Two runs -/

instance (s : LockFreeQueue (Fin 2) α) (i : Fin 2) (spurious : Bool) :
    ∀ op, Decidable (s.Harmless i spurious op)
  | .linkNode .. => inferInstanceAs (Decidable (_ → _ → _))
  | .helpTail .. => inferInstanceAs (Decidable (_ → _ → _))
  | .swingTail .. => inferInstanceAs (Decidable (_ → _ → _))
  | .moveHead .. => inferInstanceAs (Decidable (_ → _ → _ ∧ _))
  | .deleteHead .. => inferInstanceAs (Decidable (∀ _ : Fin 2, _ → _))
  | .idle | .loadTail .. | .loadNext .. | .recheckTail .. | .addSize | .loadHead
  | .loadHeadNext .. | .readData .. | .subSize .. | .returned .. => inferInstanceAs (Decidable True)

instance (s : LockFreeQueue (Fin 2) α) : ∀ a, Decidable (Undisturbed s a)
  | .advance i spurious => inferInstanceAs (Decidable (s.Harmless i spurious (s.threads i)))
  | .push .. | .pop .. => inferInstanceAs (Decidable True)

def firstThread : Fin 2 := ⟨0, Nat.two_pos⟩

def secondThread : Fin 2 := ⟨1, Nat.one_lt_two⟩

/-- One thread pushes two values, and the other one pops the first of them: the pop begins when the
second node has just been linked, and ends before the push. -/
def popDuringSecondPush : List (Action (Fin 2) ℕ) :=
  .push firstThread 2 7 :: List.replicate 6 (.advance firstThread false) ++
    .push firstThread 3 8 :: List.replicate 4 (.advance firstThread false) ++
      .pop secondThread :: List.replicate 4 (.advance secondThread false) ++
        .advance firstThread false :: List.replicate 2 (.advance secondThread false) ++
          [.advance firstThread false]

theorem head_tail_live_popDuringSecondPush :
    ∃ s : LockFreeQueue (Fin 2) ℕ,
      run step Undisturbed (create 1) popDuringSecondPush = some s ∧
      s.head = 2 ∧ s.tail = 3 ∧ (s.heap s.head).isSome ∧ (s.heap s.tail).isSome := by
  obtain ⟨s, hs, hhead, htail⟩ : ∃ s : LockFreeQueue (Fin 2) ℕ,
      run step Undisturbed (create 1) popDuringSecondPush = some s ∧ s.head = 2 ∧ s.tail = 3 :=
    ⟨_, rfl, rfl, rfl⟩
  have hlive := head_tail_live Nat.one_ne_zero (reaches_of_run hs)
  exact ⟨s, hs, hhead, htail, hlive.1, hlive.2.1⟩

/-- The second thread pops a value between the two compare-exchanges with which the first one pushes
it. -/
def popDuringPush : List (Action (Fin 2) ℕ) :=
  .push firstThread 2 7 :: List.replicate 4 (.advance firstThread false) ++
    .pop secondThread :: List.replicate 5 (.advance secondThread false)

/-- `tail_` is left on the old dummy node, which is deleted. -/
theorem not_forall_head_tail_live :
    ¬ ∀ s : LockFreeQueue (Fin 2) ℕ, Reaches step (fun _ _ => True) (create 1) s →
      (s.heap s.head).isSome ∧ (s.heap s.tail).isSome ∧
      Relation.ReflTransGen (fun x y => nextIn s.heap x = y) s.head s.tail ∧
      ∀ i x, (s.threads i).accessed = some x → (s.heap x).isSome := by
  intro h
  obtain ⟨s, hs, htail⟩ : ∃ s : LockFreeQueue (Fin 2) ℕ,
      run step (fun _ _ => True) (create 1) popDuringPush = some s ∧
      (s.heap s.tail).isSome = false := ⟨_, rfl, rfl⟩
  have hlive := (h s (reaches_of_run hs)).2.1
  rw [htail] at hlive
  cases hlive

end NetSentry.LockFreeQueue
