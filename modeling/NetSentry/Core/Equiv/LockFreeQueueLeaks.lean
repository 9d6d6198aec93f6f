import NetSentry.Core.Equiv.LockFreeQueueFifo
import NetSentry.Core.Equiv.LockFreeQueueProgress

/-!
# The lock-free queue leaks no node

* `accounted_of_reaches`: in every run whose steps do no harm, a node that exists is in the chain
  from `head_`, or it belongs to a call that has yet to link or to delete it.
* `destroy_of_reaches`: when all calls have ended, however they overlapped, the destructor deletes
  every node that exists, and each of them once.
-/

namespace NetSentry.LockFreeQueue

open Transition

variable {ι α : Type*} [DecidableEq ι] {s t : LockFreeQueue ι α} {queue queue' : List ℕ} {i : ι}

/-! ### Nodes that exist -/

/-- Every node that exists is in the queue, or a call is going to link or delete it. -/
def Accounted (s : LockFreeQueue ι α) (queue : List ℕ) : Prop :=
  ∀ x, (s.heap x).isSome → x ∈ queue ∨ ∃ i, (s.threads i).owned = some x

/-- **One call goes on**: the nodes that it leaves behind are in the queue. -/
theorem Accounted.move (h : Accounted s queue) {op : Operation α}
    (hthreads : t.threads = Function.update s.threads i op)
    (hmove : ∀ x, (t.heap x).isSome → x ∈ queue' ∨ op.owned = some x ∨
      (s.heap x).isSome ∧ x ∉ queue ∧ (s.threads i).owned ≠ some x) : Accounted t queue' := by
  intro x hx
  rcases hmove x hx with hmem | howned | ⟨hsome, hnot, hother⟩
  · exact .inl hmem
  · refine .inr ⟨i, ?_⟩
    rwa [hthreads, Function.update_self]
  · obtain ⟨j, hj⟩ := (h x hsome).resolve_left hnot
    have hji : j ≠ i := by
      rintro rfl
      exact hother hj
    refine .inr ⟨j, ?_⟩
    rwa [hthreads, Function.update_of_ne hji]

/-- A call goes on without a change to the queue. -/
theorem Accounted.goto (h : Accounted s queue) (hinv : Inv s queue) (hinv' : Inv t queue')
    {old op : Operation α} (hthreads : t.threads = Function.update s.threads i op)
    (hheap : t.heap = s.heap) (hhead : t.head = s.head) (hold : s.threads i = old)
    (howned : op.owned = old.owned) : Accounted t queue' := by
  obtain rfl := hinv.queue_eq hinv' hheap hhead
  refine h.move hthreads fun x hx => ?_
  rw [hheap] at hx
  by_cases hmem : x ∈ queue'
  · exact .inl hmem
  · by_cases hown : old.owned = some x
    · exact .inr (.inl (howned.trans hown))
    · exact .inr (.inr ⟨hx, hmem, hold ▸ hown⟩)

theorem isSome_of_isSome_update {heap : ℕ → Option (Node α)} {x y : ℕ}
    {node : Option (Node α)} (hne : y ≠ x) (h : (Function.update heap x node y).isSome) :
    (heap y).isSome := by
  rwa [Function.update_of_ne hne] at h

/-- `new` makes a node that belongs to the call. -/
theorem Accounted.push (h : Accounted s queue) {newNode : ℕ} (value : α)
    (hended : (s.threads i).ended = true) :
    Accounted ({ s with heap := Function.update s.heap newNode (some ⟨some value, 0⟩) }.goto i
      (.loadTail newNode 0)) queue := by
  have hnone : (s.threads i).owned = none := by
    cases hop : s.threads i <;> rw [hop] at hended <;> first | rfl | cases hended
  refine h.move rfl fun x hx => ?_
  by_cases hnew : x = newNode
  · exact .inr (.inl (congrArg some hnew.symm))
  · by_cases hmem : x ∈ queue
    · exact .inl hmem
    · exact .inr (.inr ⟨isSome_of_isSome_update hnew hx, hmem,
        hnone ▸ (Option.some_ne_none x).symm⟩)

/-- The new node is in the queue from now on. -/
theorem Accounted.linkNode (h : Accounted s queue) {newNode nullNode oldTail : ℕ}
    {node : Node α} (hop : s.threads i = .linkNode newNode nullNode oldTail)
    (hnode : s.heap oldTail = some node) :
    Accounted ({ s with
      heap := Function.update s.heap oldTail (some { node with next := newNode }) }.goto i
      (.swingTail newNode oldTail)) (queue ++ [newNode]) := by
  refine h.move rfl fun x hx => ?_
  have hsome : (s.heap x).isSome := by
    by_cases hold : x = oldTail
    · rw [hold, hnode]
      rfl
    · exact isSome_of_isSome_update hold hx
  by_cases hmem : x ∈ queue ++ [newNode]
  · exact .inl hmem
  · obtain ⟨hqueue, hnew⟩ := not_or.mp (mt List.mem_append.mpr hmem)
    refine .inr (.inr ⟨hsome, hqueue, ?_⟩)
    rw [hop]
    intro howned
    exact hnew (List.mem_singleton.mpr (Option.some.inj howned).symm)

/-- The old head belongs to the call that has moved `head_`. -/
theorem Accounted.moveHead (h : Accounted s queue) (hinv : Inv s queue) {nextNode : ℕ}
    (hnext : nextIn s.heap s.head = nextNode) (hnone : (s.threads i).owned = none)
    (hinv' : Inv ({ s with head := nextNode }.goto i (.readData s.head nextNode)) queue') :
    Accounted ({ s with head := nextNode }.goto i (.readData s.head nextNode)) queue' := by
  have hhead := hinv.chain.ne_null (hinv.chain.start_mem hinv.tail_mem)
  have hchain : Chain (nextIn s.heap) 0 s.head (s.head :: queue') := by
    refine .cons hhead ?_
    rw [hnext]
    exact hinv'.chain
  obtain rfl := hinv.chain.unique hchain
  refine h.move rfl fun x hx => ?_
  by_cases hold : x = s.head
  · exact .inr (.inl (congrArg some hold.symm))
  · by_cases hmem : x ∈ queue'
    · exact .inl hmem
    · refine .inr (.inr ⟨hx, ?_, hnone ▸ (Option.some_ne_none x).symm⟩)
      exact fun hcons => (List.mem_cons.mp hcons).elim hold hmem

/-- The node that the call owned is gone. -/
theorem Accounted.deleteHead (h : Accounted s queue) {oldHead : ℕ} {result : Option α}
    (hop : s.threads i = .deleteHead oldHead result) :
    Accounted ({ s with heap := Function.update s.heap oldHead none }.goto i (.subSize result))
      queue := by
  refine h.move rfl fun x hx => ?_
  have hne : x ≠ oldHead := by
    rintro rfl
    change (Function.update s.heap x none x).isSome at hx
    rw [Function.update_self] at hx
    cases hx
  by_cases hmem : x ∈ queue
  · exact .inl hmem
  · refine .inr (.inr ⟨isSome_of_isSome_update hne hx, hmem, ?_⟩)
    rw [hop]
    intro howned
    exact hne (Option.some.inj howned).symm

/-- **One step of a call** accounts for every node when it does no harm. -/
theorem accounted_advance (h : Accounted s queue) (hinv : Inv s queue) {spurious : Bool}
    (hharmless : s.Harmless i spurious (s.threads i))
    (hstep : s.advance i spurious (s.threads i) = some t) (hinv' : Inv t queue') :
    Accounted t queue' := by
  generalize hop : s.threads i = op at hharmless hstep
  cases op with
  | idle => cases hstep
  | returned result => cases hstep
  | loadTail newNode nullNode =>
    obtain rfl := Option.some.inj hstep
    exact h.goto hinv hinv' rfl rfl rfl hop rfl
  | loadNext newNode nullNode oldTail =>
    obtain ⟨node, _, rfl⟩ := Option.map_eq_some_iff.mp hstep
    exact h.goto hinv hinv' rfl rfl rfl hop rfl
  | recheckTail newNode nullNode oldTail next =>
    simp only [advance] at hstep
    split_ifs at hstep <;> obtain rfl := Option.some.inj hstep <;>
      exact h.goto hinv hinv' rfl rfl rfl hop rfl
  | linkNode newNode nullNode oldTail =>
    obtain ⟨node, hnode, hnext⟩ := Option.map_eq_some_iff.mp hstep
    split_ifs at hnext with hfound
    · subst hnext
      have hnull : nullNode = 0 :=
        hharmless ((nextIn_of_eq_some hnode).trans hfound.1) (by simpa using hfound.2)
      have hlinked := hinv.linkNode hop hnode (hfound.1.trans hnull)
      obtain rfl := hlinked.queue_eq hinv' rfl rfl
      exact h.linkNode hop hnode
    · subst hnext
      exact h.goto hinv hinv' rfl rfl rfl hop rfl
  | helpTail newNode nullNode oldTail next =>
    simp only [advance] at hstep
    split_ifs at hstep <;> obtain rfl := Option.some.inj hstep <;>
      exact h.goto hinv hinv' rfl rfl rfl hop rfl
  | swingTail newNode oldTail =>
    simp only [advance] at hstep
    split_ifs at hstep <;> obtain rfl := Option.some.inj hstep <;>
      exact h.goto hinv hinv' rfl rfl rfl hop rfl
  | addSize =>
    obtain rfl := Option.some.inj hstep
    exact h.goto hinv hinv' rfl rfl rfl hop rfl
  | loadHead =>
    obtain rfl := Option.some.inj hstep
    exact h.goto hinv hinv' rfl rfl rfl hop rfl
  | loadHeadNext oldHead =>
    obtain ⟨node, _, hnext⟩ := Option.map_eq_some_iff.mp hstep
    split_ifs at hnext <;> subst hnext <;> exact h.goto hinv hinv' rfl rfl rfl hop rfl
  | moveHead oldHead nextNode =>
    simp only [advance] at hstep
    split_ifs at hstep with hfound
    · obtain rfl := Option.some.inj hstep
      obtain ⟨rfl, hspurious⟩ := hfound
      have hnext := (hharmless rfl (by simpa using hspurious)).2
      exact h.moveHead hinv hnext (by rw [hop]; rfl) hinv'
    · obtain rfl := Option.some.inj hstep
      exact h.goto hinv hinv' rfl rfl rfl hop rfl
  | readData oldHead nextNode =>
    obtain ⟨node, _, rfl⟩ := Option.map_eq_some_iff.mp hstep
    exact h.goto hinv hinv' rfl rfl rfl hop rfl
  | deleteHead oldHead result =>
    obtain ⟨node, _, rfl⟩ := Option.map_eq_some_iff.mp hstep
    obtain rfl := (hinv.deleteHead hop hharmless).queue_eq hinv' rfl rfl
    exact h.deleteHead hop
  | subSize result =>
    cases result with
    | none => cases hstep
    | some value =>
      obtain rfl := Option.some.inj hstep
      exact h.goto hinv hinv' rfl rfl rfl hop rfl

/-- **One step** accounts for every node when it does no harm. -/
theorem accounted_step (h : Accounted s queue) (hinv : Inv s queue) {a : Action ι α}
    (hundisturbed : Undisturbed s a) (hstep : step s a = some t) (hinv' : Inv t queue') :
    Accounted t queue' := by
  cases a with
  | push i newNode value =>
    simp only [step] at hstep
    split_ifs at hstep with hcond
    obtain rfl := Option.some.inj hstep
    obtain rfl := (hinv.push value hcond.2.1 hcond.2.2).queue_eq hinv' rfl rfl
    exact h.push value hcond.1
  | pop i =>
    simp only [step] at hstep
    split_ifs at hstep with hcond
    obtain rfl := Option.some.inj hstep
    refine h.goto hinv hinv' rfl rfl rfl rfl ?_
    cases hop : s.threads i <;> rw [hop] at hcond <;> first | rfl | cases hcond
  | advance i spurious => exact accounted_advance h hinv hundisturbed hstep hinv'

omit [DecidableEq ι] in
theorem accounted_create (dummy : ℕ) :
    Accounted (create dummy : LockFreeQueue ι α) [dummy] := by
  intro x hx
  by_cases hdummy : x = dummy
  · exact .inl (List.mem_singleton.mpr hdummy)
  · change (Function.update (fun _ => none) dummy (some (⟨none, 0⟩ : Node α)) x).isSome at hx
    rw [Function.update_of_ne hdummy] at hx
    cases hx

/-- **No node is lost**: in every run whose steps do no harm, the nodes that exist are those of the
chain from `head_` and those that a call has made and has yet to link, or has taken off the chain
and has yet to delete; and no node is both. -/
theorem accounted_of_reaches {dummy : ℕ} (hdummy : dummy ≠ 0)
    (h : Reaches step Undisturbed (create dummy) s) :
    ∃ queue, Chain (nextIn s.heap) 0 s.head queue ∧
      (∀ x, (s.heap x).isSome ↔ x ∈ queue ∨ ∃ i, (s.threads i).owned = some x) ∧
      ∀ i, ∀ x ∈ queue, (s.threads i).owned ≠ some x := by
  have hkeep : ∀ (s : LockFreeQueue ι α) a t, (∃ queue, Inv s queue ∧ Accounted s queue) →
      Undisturbed s a → step s a = some t → ∃ queue, Inv t queue ∧ Accounted t queue := by
    rintro s a t ⟨queue, hinv, hs⟩ hundisturbed hstep
    obtain ⟨queue', hinv'⟩ := inv_step hinv hundisturbed hstep
    exact ⟨queue', hinv', accounted_step hs hinv hundisturbed hstep hinv'⟩
  obtain ⟨queue, hinv, hs⟩ :=
    h.invariant hkeep ⟨[dummy], inv_create hdummy, accounted_create dummy⟩
  refine ⟨queue, hinv.chain, fun x => ⟨hs x, ?_⟩, ?_⟩
  · rintro (hmem | ⟨i, howned⟩)
    · exact hinv.live x hmem
    · exact ((hinv.calls i).owned x howned).2.1
  · intro i x hmem howned
    exact ((hinv.calls i).owned x howned).2.2 hmem

/-! ### The destructor -/

/-- **The destructor deletes what is left**: after any run whose steps do no harm, when all calls
have ended, the destructor ends, no node exists after it, and the nodes that it deletes are those
that existed, each of them once.  It cannot go on where it would read or delete a node that does not
exist. -/
theorem destroy_of_reaches {dummy : ℕ} (hdummy : dummy ≠ 0)
    (h : Reaches step Undisturbed (create dummy) s) (hended : ∀ i, (s.threads i).ended = true)
    (i : ι) :
    ∃ pops t, Session.destroy 6 i pops ⟨s, [], [], []⟩ = some t ∧
      (∀ x, t.queue.heap x = none) ∧ t.deleted.Nodup ∧
      ∀ x, x ∈ t.deleted ↔ (s.heap x).isSome := by
  obtain ⟨⟨queue, hinv⟩, _, hvalues⟩ := steady_of_reaches hdummy h
  obtain ⟨queue', hchain, hlive, -⟩ := accounted_of_reaches hdummy h
  obtain rfl := hinv.chain.unique hchain
  obtain ⟨nodes, rfl, hrest⟩ :=
    hchain.exists_cons (hchain.ne_null (hchain.start_mem hinv.tail_mem))
  have hnone : ∀ j, (s.threads j).owned = none := by
    intro j
    have hj := hended j
    cases hop : s.threads j <;> rw [hop] at hj <;> first | rfl | cases hj
  have hlive' : ∀ x, (s.heap x).isSome ↔ x ∈ s.head :: nodes := by
    intro x
    rw [hlive x]
    refine or_iff_left ?_
    rintro ⟨j, hj⟩
    rw [hnone j] at hj
    cases hj
  have hvalue : ∀ x ∈ nodes, (dataIn s.heap x).isSome := by
    intro x hx
    have hvacant : ¬ Vacant s.heap x := by
      -- another node points to it
      rcases (hchain.reaches (List.mem_cons_of_mem _ hx)).cases_tail with rfl | ⟨y, -, rfl⟩
      · exact absurd hx (List.nodup_cons.mp hchain.nodup).1
      · exact hvalues.next y
    obtain ⟨node, hnode⟩ :=
      Option.isSome_iff_exists.mp ((hlive' x).mpr (List.mem_cons_of_mem _ hx))
    rw [dataIn, hnode, Option.bind_some, Option.isSome_iff_ne_none]
    exact fun hnone => hvacant ⟨node, hnode, hnone⟩
  have hquiet : Quiet (⟨s, [], [], []⟩ : Session ι α).queue nodes :=
    ⟨hchain, hlive', hvalue, hended⟩
  obtain ⟨t, hdestroy, hheap, -, hdeleted⟩ := hquiet.destroy i
  rw [List.nil_append] at hdeleted
  refine ⟨_, t, hdestroy, hheap, hdeleted ▸ hchain.nodup, fun x => ?_⟩
  rw [hdeleted, hlive']

/-- Two values are pushed, and one is popped while the second push has yet to move `tail_`. -/
def twoPushesPopBetween : List (Action (Fin 2) ℕ) :=
  .push firstThread 2 7 :: List.replicate 6 (.advance firstThread false) ++
    .push firstThread 3 8 :: List.replicate 4 (.advance firstThread false) ++
    .pop secondThread :: List.replicate 6 (.advance secondThread false) ++
    List.replicate 2 (.advance firstThread false)

theorem accounted_of_reaches_twoPushesPopBetween :
    ∃ s : LockFreeQueue (Fin 2) ℕ, run step Undisturbed (create 1) twoPushesPopBetween = some s ∧
      ∃ queue, Chain (nextIn s.heap) 0 s.head queue ∧
        (∀ x, (s.heap x).isSome ↔ x ∈ queue ∨ ∃ i, (s.threads i).owned = some x) ∧
        ∀ i, ∀ x ∈ queue, (s.threads i).owned ≠ some x := by
  obtain ⟨s, hs⟩ : ∃ s : LockFreeQueue (Fin 2) ℕ,
      run step Undisturbed (create 1) twoPushesPopBetween = some s := ⟨_, rfl⟩
  exact ⟨s, hs, accounted_of_reaches Nat.one_ne_zero (reaches_of_run hs)⟩

theorem destroy_of_reaches_twoPushesPopBetween :
    ∃ s : LockFreeQueue (Fin 2) ℕ, run step Undisturbed (create 1) twoPushesPopBetween = some s ∧
      ∃ pops t, Session.destroy 6 firstThread pops ⟨s, [], [], []⟩ = some t ∧
        (∀ x, t.queue.heap x = none) ∧ t.deleted.Nodup ∧
        ∀ x, x ∈ t.deleted ↔ (s.heap x).isSome := by
  obtain ⟨s, hs, hended⟩ : ∃ s : LockFreeQueue (Fin 2) ℕ,
      run step Undisturbed (create 1) twoPushesPopBetween = some s ∧
      ∀ i, (s.threads i).ended = true := ⟨_, rfl, by decide⟩
  exact ⟨s, hs, destroy_of_reaches Nat.one_ne_zero (reaches_of_run hs) hended firstThread⟩

end NetSentry.LockFreeQueue
