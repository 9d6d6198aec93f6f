import NetSentry.Core.Equiv.LockFreeQueueFifo
import NetSentry.Lib.Linearizable

/-!
# The lock-free queue under concurrent calls

In a run whose steps do no harm (`Undisturbed`), the calls of `push` and `pop` of any number of
threads look as if each had been made at once.

* `linearizable_of_reaches`: the history of such a run is linearizable with respect to an unbounded
  first in, first out queue.
* `values_conserved`: where no call is in progress, the values that have been pushed are those that
  have been popped and those still in the nodes, each as often.

A push takes effect when its node is linked, a pop when `head_` moves on, or when it finds that the
node which `head_` designates has no successor.
-/

namespace NetSentry.LockFreeQueue

open Transition Linearizability

variable {ι α : Type*} [DecidableEq ι] {s t : LockFreeQueue ι α}

/-! ### The specification and the histories -/

/-- A call. -/
inductive Method (α : Type*)
  | push (value : α)
  | pop

/-- What a call returns. -/
inductive Answer (α : Type*)
  | pushed
  | popped (result : Option α)

/-- The methods of an unbounded first in, first out queue. -/
inductive FifoMethod : List α → Method α → Answer α → List α → Prop
  | push (values : List α) (value : α) :
    FifoMethod values (.push value) .pushed (values ++ [value])
  | pop (values : List α) : FifoMethod values .pop (.popped values.head?) values.tail

/-- What the next step of a call shows: the answer, where it is the last one. -/
def Operation.answers (heap : ℕ → Option (Node α)) (i : ι) :
    Operation α → List (Linearizability.Event ι (Method α) (Answer α))
  | .addSize => [.answer i .pushed]
  | .loadHeadNext oldHead => if nextIn heap oldHead = 0 then [.answer i (.popped none)] else []
  | .subSize result => [.answer i (.popped result)]
  | _ => []

/-- What an action shows. -/
def shown (s : LockFreeQueue ι α) :
    Action ι α → List (Linearizability.Event ι (Method α) (Answer α))
  | .push i _ value => [.call i (.push value)]
  | .pop i => [.call i .pop]
  | .advance i _ => (s.threads i).answers s.heap i

/-! ### The relation to the atomic queue -/

/-- How far a call is as a call of the atomic queue. -/
def Operation.Fits (heap : ℕ → Option (Node α)) (head : ℕ) :
    Operation α → Phase (Method α) (Answer α) → Prop
  | .idle, phase | .returned _, phase => phase = .ready
  | .loadTail newNode _, phase | .loadNext newNode _ _, phase | .recheckTail newNode _ _ _, phase
  | .linkNode newNode _ _, phase | .helpTail newNode _ _ _, phase =>
    ∃ value, dataIn heap newNode = some value ∧ phase = .called (.push value)
  | .swingTail _ _, phase | .addSize, phase => phase = .done .pushed
  | .loadHead, phase | .moveHead _ _, phase => phase = .called .pop
  -- a node that `head_` has left has a successor
  | .loadHeadNext oldHead, phase =>
    (oldHead = head ∨ nextIn heap oldHead ≠ 0) ∧ phase = .called .pop
  | .readData _ nextNode, phase => phase = .done (.popped (dataIn heap nextNode))
  | .deleteHead _ result, phase | .subSize result, phase => phase = .done (.popped result)

/-- The nodes after the dummy node hold the values of the atomic queue, and each call is as far as
the one there. -/
structure Atomically (s : LockFreeQueue ι α) (queue : List ℕ)
    (c : Object ι (Method α) (Answer α) (List α)) : Prop where
  inv : Inv s queue
  data : queue.tail.map (dataIn s.heap) = c.state.map some
  fits : ∀ i, (s.threads i).Fits s.heap s.head (c.phases i)

omit [DecidableEq ι] in
/-- A call that nothing happens to: its nodes keep their data. -/
theorem Operation.Fits.frame {heap heap' : ℕ → Option (Node α)} {head head' : ℕ}
    {op : Operation α} {phase : Phase (Method α) (Answer α)} (h : op.Fits heap head phase)
    (hdata : ∀ x, op.owned = some x ∨ op.accessed = some x → dataIn heap' x = dataIn heap x)
    (hhead : ∀ x, op.accessed = some x → x = head ∨ nextIn heap x ≠ 0 →
      x = head' ∨ nextIn heap' x ≠ 0) : op.Fits heap' head' phase := by
  cases op with
  | loadTail newNode _ | loadNext newNode _ _ | recheckTail newNode _ _ _ | linkNode newNode _ _
  | helpTail newNode _ _ _ =>
    obtain ⟨value, hvalue, hphase⟩ := h
    exact ⟨value, (hdata newNode (.inl rfl)).trans hvalue, hphase⟩
  | loadHeadNext oldHead => exact ⟨hhead oldHead rfl h.1, h.2⟩
  | readData _ nextNode =>
    show phase = .done (.popped (dataIn heap' nextNode))
    rw [hdata nextNode (.inr rfl)]
    exact h
  | _ => exact h

omit [DecidableEq ι] in
/-- A thread whose call has ended is not in one of the atomic queue. -/
theorem Operation.Fits.ready {heap : ℕ → Option (Node α)} {head : ℕ} {op : Operation α}
    {phase : Phase (Method α) (Answer α)} (h : op.Fits heap head phase) (hended : op.ended = true) :
    phase = .ready := by
  cases op with
  | idle => exact h
  | returned result => exact h
  | _ => cases hended

variable {queue queue' : List ℕ} {c : Object ι (Method α) (Answer α) (List α)} {i : ι}

/-- **One call goes on**, and the others are as far as they were. -/
theorem Atomically.move (h : Atomically s queue c) {op : Operation α} {values : List α}
    {phase : Phase (Method α) (Answer α)} (hinv : Inv t queue')
    (hthreads : t.threads = Function.update s.threads i op)
    (hvalues : queue'.tail.map (dataIn t.heap) = values.map some)
    (hop : op.Fits t.heap t.head phase)
    (hdata : ∀ j, j ≠ i → ∀ x,
      (s.threads j).owned = some x ∨ (s.threads j).accessed = some x →
      dataIn t.heap x = dataIn s.heap x)
    (hhead : ∀ j, j ≠ i → ∀ x, (s.threads j).accessed = some x →
      x = s.head ∨ nextIn s.heap x ≠ 0 → x = t.head ∨ nextIn t.heap x ≠ 0) :
    Atomically t queue' ⟨Function.update c.phases i phase, values⟩ where
  inv := hinv
  data := hvalues
  fits := by
    intro j
    rw [hthreads]
    show (Function.update s.threads i op j).Fits t.heap t.head (Function.update c.phases i phase j)
    by_cases hji : j = i
    · subst hji
      rw [Function.update_self, Function.update_self]
      exact hop
    · rw [Function.update_of_ne hji, Function.update_of_ne hji]
      exact (h.fits j).frame (hdata j hji) (hhead j hji)

/-- A call goes on without a change to the queue. -/
theorem Atomically.goto (h : Atomically s queue c) {op : Operation α}
    {phase : Phase (Method α) (Answer α)} (hinv : Inv t queue')
    (hthreads : t.threads = Function.update s.threads i op) (hheap : t.heap = s.heap)
    (hhead : t.head = s.head) (hop : op.Fits s.heap s.head phase) :
    Atomically t queue ⟨Function.update c.phases i phase, c.state⟩ := by
  obtain rfl := h.inv.queue_eq hinv hheap hhead
  apply h.move hinv hthreads
  · rw [hheap]
    exact h.data
  · rwa [hheap, hhead]
  · intro j _ x _
    rw [hheap]
  · intro j _ x _ hx
    rwa [hheap, hhead]

/-! ### Steps -/

/-- The queue is as far as the atomic one. -/
def Mirrors (s : LockFreeQueue ι α) (c : Object ι (Method α) (Answer α) (List α)) : Prop :=
  ∃ queue, Atomically s queue c

/-- `push` begins. -/
theorem Atomically.push (h : Atomically s queue c) {newNode : ℕ} {value : α}
    (hended : (s.threads i).ended = true) (hne : newNode ≠ 0)
    (hfresh : (s.heap newNode).isNone) :
    Follows FifoMethod Mirrors
      ({ s with heap := Function.update s.heap newNode (some ⟨some value, 0⟩) }.goto i
        (.loadTail newNode 0)) c [.call i (.push value)] := by
  have hother : ∀ x, (s.heap x).isSome → x ≠ newNode := fun x => ne_of_isNone hfresh
  have hdata : ∀ x, (s.heap x).isSome →
      dataIn (Function.update s.heap newNode (some ⟨some value, 0⟩)) x = dataIn s.heap x := by
    intro x hx
    unfold dataIn
    rw [Function.update_of_ne (hother x hx)]
  apply Follows.call ((h.fits i).ready hended)
  refine ⟨_, h.move (h.inv.push value hne hfresh) rfl ?_ ?_ ?_ ?_⟩
  · rw [← h.data]
    apply List.map_congr_left
    intro x hx
    exact hdata x (h.inv.live x (List.mem_of_mem_tail hx))
  · refine ⟨value, ?_, rfl⟩
    show dataIn (Function.update s.heap newNode _) newNode = some value
    unfold dataIn
    rw [Function.update_self]
    rfl
  · intro j _ x hx
    apply hdata
    rcases hx with hx | hx
    · exact ((h.inv.calls j).owned x hx).2.1
    · exact (h.inv.calls j).accessed x hx
  · intro j _ x hx hlinked
    show x = s.head ∨ nextIn (Function.update s.heap newNode _) x ≠ 0
    rwa [nextIn_update_of_ne s.heap _ (hother x ((h.inv.calls j).accessed x hx))]

/-- A node is linked: the push takes effect. -/
theorem Atomically.linkNode (h : Atomically s queue c) {newNode nullNode oldTail : ℕ}
    {node : Node α} (hop : s.threads i = .linkNode newNode nullNode oldTail)
    (hnode : s.heap oldTail = some node) (hlast : node.next = 0) :
    Follows FifoMethod Mirrors ({ s with
      heap := Function.update s.heap oldTail (some { node with next := newNode }) }.goto i
      (.swingTail newNode oldTail)) c [] := by
  have hdata : ∀ x,
      dataIn (Function.update s.heap oldTail (some { node with next := newNode })) x
        = dataIn s.heap x := by
    intro x
    unfold dataIn
    by_cases hx : x = oldTail
    · subst hx
      rw [Function.update_self, hnode]
      rfl
    · rw [Function.update_of_ne hx]
  have hfits := h.fits i
  rw [hop] at hfits
  obtain ⟨value, hvalue, hphase⟩ := hfits
  have hnonempty : queue ≠ [] := List.ne_nil_of_mem h.inv.tail_mem
  apply Follows.commit hphase (.push c.state value)
  refine ⟨_, h.move (h.inv.linkNode hop hnode hlast) rfl ?_ rfl (fun j _ x _ => hdata x) ?_⟩
  · rw [List.tail_append_of_ne_nil hnonempty, List.map_append, List.map_append, ← h.data]
    congr 1
    · exact List.map_congr_left fun x _ => hdata x
    · rw [List.map_singleton, List.map_singleton]
      exact congrArg (fun r => [r]) ((hdata newNode).trans hvalue)
  · intro j _ x _ hx
    rcases hx with hx | hx
    · exact .inl hx
    · right
      show nextIn (Function.update s.heap oldTail _) x ≠ 0
      by_cases hxOld : x = oldTail
      · exact absurd (hxOld ▸ (nextIn_of_eq_some hnode).trans hlast) hx
      · rwa [nextIn_update_of_ne s.heap _ hxOld]

/-- `head_` moves on: the pop takes effect. -/
theorem Atomically.moveHead (h : Atomically s queue c) {nextNode : ℕ}
    (hop : s.threads i = .moveHead s.head nextNode) (hne : nextNode ≠ 0)
    (htail : s.tail ≠ s.head) (hnext : nextIn s.heap s.head = nextNode) :
    Follows FifoMethod Mirrors ({ s with head := nextNode }.goto i (.readData s.head nextNode)) c
      [] := by
  obtain ⟨queue', hinv⟩ := h.inv.moveHead (i := i) hne htail hnext
  have hheadNe := h.inv.chain.ne_null (h.inv.chain.start_mem h.inv.tail_mem)
  obtain ⟨rest, hqueue, hrest⟩ := h.inv.chain.exists_cons hheadNe
  rw [hnext] at hrest
  obtain rfl : queue' = rest := hinv.chain.unique hrest
  obtain ⟨rest, rfl, _⟩ := hrest.exists_cons hne
  have hfits := h.fits i
  rw [hop] at hfits
  -- the value of the node that becomes the dummy node is the first one
  have hdata := h.data
  rw [hqueue, List.tail_cons, List.map_cons] at hdata
  obtain ⟨value, values, hstate, hvalue, hvalues⟩ := List.map_eq_cons_iff.mp hdata.symm
  have hmethod : FifoMethod c.state .pop (.popped (dataIn s.heap nextNode)) values := by
    have hpop := FifoMethod.pop c.state
    rwa [hstate, List.head?_cons, List.tail_cons, hvalue, ← hstate] at hpop
  apply Follows.commit hfits hmethod
  refine ⟨_, h.move hinv rfl hvalues.symm rfl (fun j _ x _ => rfl) ?_⟩
  intro j _ x _ hx
  right
  rcases hx with rfl | hx
  · exact hnext ▸ hne
  · exact hx

/-- The old head is deleted. -/
theorem Atomically.deleteHead (h : Atomically s queue c) {oldHead : ℕ} {result : Option α}
    (hop : s.threads i = .deleteHead oldHead result)
    (hunused : ∀ j, j ≠ i → (s.threads j).accessed ≠ some oldHead) :
    Follows FifoMethod Mirrors
      ({ s with heap := Function.update s.heap oldHead none }.goto i (.subSize result)) c [] := by
  have hcall := h.inv.calls i
  rw [hop] at hcall
  have hnot := (hcall.owned oldHead rfl).2.2
  have hdata : ∀ x, x ≠ oldHead →
      dataIn (Function.update s.heap oldHead none) x = dataIn s.heap x := by
    intro x hx
    unfold dataIn
    rw [Function.update_of_ne hx]
  have hfits := h.fits i
  rw [hop] at hfits
  apply Follows.silent hfits
  refine ⟨_, h.move (h.inv.deleteHead hop hunused) rfl ?_ rfl ?_ ?_⟩
  · rw [← h.data]
    apply List.map_congr_left
    intro x hx
    apply hdata
    rintro rfl
    exact hnot (List.mem_of_mem_tail hx)
  · intro j hji x hx
    apply hdata
    rintro rfl
    rcases hx with hx | hx
    · exact hji (h.inv.distinct j i x hx (by rw [hop]; rfl))
    · exact hunused j hji hx
  · intro j hji x hx hlinked
    show x = s.head ∨ nextIn (Function.update s.heap oldHead none) x ≠ 0
    have hne : x ≠ oldHead := by
      rintro rfl
      exact hunused j hji hx
    rwa [nextIn_update_of_ne s.heap none hne]

/-- **One step of a call**: the atomic queue does as much. -/
theorem follows_advance (h : Atomically s queue c) {spurious : Bool}
    (hharmless : s.Harmless i spurious (s.threads i))
    (hstep : s.advance i spurious (s.threads i) = some t) :
    Follows FifoMethod Mirrors t c ((s.threads i).answers s.heap i) := by
  obtain ⟨queue', hinv⟩ := inv_advance h.inv hharmless hstep
  have hfits := h.fits i
  generalize hop : s.threads i = op at hfits hharmless hstep
  cases op with
  | idle => cases hstep
  | returned result => cases hstep
  | loadTail newNode nullNode =>
    obtain rfl := Option.some.inj hstep
    obtain ⟨value, hvalue, hphase⟩ := hfits
    exact .silent hphase ⟨_, h.goto hinv rfl rfl rfl ⟨value, hvalue, rfl⟩⟩
  | loadNext newNode nullNode oldTail =>
    obtain ⟨node, _, rfl⟩ := Option.map_eq_some_iff.mp hstep
    obtain ⟨value, hvalue, hphase⟩ := hfits
    exact .silent hphase ⟨_, h.goto hinv rfl rfl rfl ⟨value, hvalue, rfl⟩⟩
  | recheckTail newNode nullNode oldTail next =>
    obtain ⟨value, hvalue, hphase⟩ := hfits
    simp only [advance] at hstep
    split_ifs at hstep <;> obtain rfl := Option.some.inj hstep <;>
      exact .silent hphase ⟨_, h.goto hinv rfl rfl rfl ⟨value, hvalue, rfl⟩⟩
  | linkNode newNode nullNode oldTail =>
    obtain ⟨node, hnode, hnext⟩ := Option.map_eq_some_iff.mp hstep
    split_ifs at hnext with hfound
    · subst hnext
      have hnull : nullNode = 0 :=
        hharmless ((nextIn_of_eq_some hnode).trans hfound.1) (by simpa using hfound.2)
      exact h.linkNode hop hnode (hfound.1.trans hnull)
    · subst hnext
      obtain ⟨value, hvalue, hphase⟩ := hfits
      exact .silent hphase ⟨_, h.goto hinv rfl rfl rfl ⟨value, hvalue, rfl⟩⟩
  | helpTail newNode nullNode oldTail next =>
    obtain ⟨value, hvalue, hphase⟩ := hfits
    simp only [advance] at hstep
    split_ifs at hstep <;> obtain rfl := Option.some.inj hstep <;>
      exact .silent hphase ⟨_, h.goto hinv rfl rfl rfl ⟨value, hvalue, rfl⟩⟩
  | swingTail newNode oldTail =>
    simp only [advance] at hstep
    split_ifs at hstep <;> obtain rfl := Option.some.inj hstep <;>
      exact .silent hfits ⟨_, h.goto hinv rfl rfl rfl rfl⟩
  | addSize =>
    obtain rfl := Option.some.inj hstep
    exact .answer hfits ⟨_, h.goto hinv rfl rfl rfl rfl⟩
  | loadHead =>
    obtain rfl := Option.some.inj hstep
    exact .silent hfits ⟨_, h.goto hinv rfl rfl rfl ⟨.inl rfl, rfl⟩⟩
  | loadHeadNext oldHead =>
    obtain ⟨node, hnode, hnext⟩ := Option.map_eq_some_iff.mp hstep
    have hnextIn := nextIn_of_eq_some hnode
    split_ifs at hnext with hnull
    · subst hnext
      -- the node is the dummy node, and there is no other
      rw [Operation.answers, if_pos (hnextIn.trans hnull)]
      obtain rfl : oldHead = s.head := hfits.1.resolve_right fun hne => hne (hnextIn.trans hnull)
      have hhead := h.inv.chain.start_mem h.inv.tail_mem
      obtain ⟨rest, hqueue, hrest⟩ := h.inv.chain.exists_cons (h.inv.chain.ne_null hhead)
      rw [hnextIn, hnull] at hrest
      have hdata := h.data
      rw [hqueue, hrest.eq_nil] at hdata
      have hempty : c.state = [] := List.map_eq_nil_iff.mp hdata.symm
      have hmethod : FifoMethod c.state .pop (.popped none) c.state := by
        rw [hempty]
        exact .pop []
      exact .commitAnswer hfits.2 hmethod ⟨_, h.goto hinv rfl rfl rfl rfl⟩
    · subst hnext
      rw [Operation.answers, if_neg (hnextIn ▸ hnull)]
      exact .silent hfits.2 ⟨_, h.goto hinv rfl rfl rfl rfl⟩
  | moveHead oldHead nextNode =>
    simp only [advance] at hstep
    split_ifs at hstep with hfound
    · obtain rfl := Option.some.inj hstep
      obtain ⟨htail, hnext⟩ := hharmless hfound.1 (by simpa using hfound.2)
      have hcall := (h.inv.calls i).sound
      rw [hop] at hcall
      obtain rfl := hfound.1
      exact h.moveHead hop hcall htail hnext
    · obtain rfl := Option.some.inj hstep
      exact .silent hfits ⟨_, h.goto hinv rfl rfl rfl ⟨.inl rfl, rfl⟩⟩
  | readData oldHead nextNode =>
    obtain ⟨node, hnode, rfl⟩ := Option.map_eq_some_iff.mp hstep
    have hdata : dataIn s.heap nextNode = node.data := by
      rw [dataIn, hnode]
      rfl
    apply Follows.silent hfits
    rw [hdata]
    exact ⟨_, h.goto hinv rfl rfl rfl rfl⟩
  | deleteHead oldHead result =>
    obtain ⟨node, _, rfl⟩ := Option.map_eq_some_iff.mp hstep
    exact h.deleteHead hop hharmless
  | subSize result =>
    cases result with
    | none => cases hstep
    | some value =>
      obtain rfl := Option.some.inj hstep
      exact .answer hfits ⟨_, h.goto hinv rfl rfl rfl rfl⟩

/-- **One step**: the atomic queue does as much. -/
theorem follows_step (h : Atomically s queue c) {a : Action ι α} (hundisturbed : Undisturbed s a)
    (hstep : step s a = some t) : Follows FifoMethod Mirrors t c (shown s a) := by
  cases a with
  | push i newNode value =>
    simp only [step] at hstep
    split_ifs at hstep with hcond
    obtain rfl := Option.some.inj hstep
    exact h.push hcond.1 hcond.2.1 hcond.2.2
  | pop i =>
    obtain ⟨queue', hinv⟩ := inv_step h.inv hundisturbed hstep
    simp only [step] at hstep
    split_ifs at hstep with hended
    obtain rfl := Option.some.inj hstep
    exact .call ((h.fits i).ready hended) ⟨_, h.goto hinv rfl rfl rfl rfl⟩
  | advance i spurious => exact follows_advance h hundisturbed hstep

/-! ### Runs -/

/-- The atomic queue has made the history of every run whose steps do no harm. -/
theorem atomic_of_reaches {dummy : ℕ} (hdummy : dummy ≠ 0)
    {events : List (Linearizability.Event ι (Method α) (Answer α))}
    (h : Reaches (record step shown) (fun r a => Undisturbed r.1 a) (create dummy, [])
      (s, events)) :
    ∃ order c, Atomic FifoMethod (.start []) events order c ∧ Mirrors s c := by
  have hstart : Atomically (create dummy : LockFreeQueue ι α) [dummy] (.start []) :=
    ⟨inv_create hdummy, rfl, fun _ => rfl⟩
  have hstep : ∀ (s : LockFreeQueue ι α) a t c, Mirrors s c → Undisturbed s a →
      step s a = some t → Follows FifoMethod Mirrors t c (shown s a) := by
    rintro s a t c ⟨queue, hs⟩ hundisturbed hstep
    exact follows_step hs hundisturbed hstep
  exact atomic_of_simulation ⟨[dummy], hstart⟩ hstep h

/-- **The queue is linearizable**, with any number of threads, in every run whose steps do no
harm. -/
theorem linearizable_of_reaches {dummy : ℕ} (hdummy : dummy ≠ 0)
    {events : List (Linearizability.Event ι (Method α) (Answer α))}
    (h : Reaches (record step shown) (fun r a => Undisturbed r.1 a) (create dummy, [])
      (s, events)) : Linearizable FifoMethod [] events := by
  obtain ⟨order, c, hatomic, _⟩ := atomic_of_reaches hdummy h
  exact hatomic.linearizable

/-- A push and a pop that overlap: the pop begins when the node has just been linked. -/
def popDuringSwing : List (Action (Fin 2) ℕ) :=
  .push firstThread 2 7 :: List.replicate 4 (.advance firstThread false) ++
    .pop secondThread :: .advance secondThread false ::
      List.replicate 2 (.advance firstThread false) ++
        List.replicate 5 (.advance secondThread false)

theorem linearizable_of_reaches_popDuringSwing :
    Linearizable (ι := Fin 2) FifoMethod []
      [.call firstThread (.push 7), .call secondThread .pop, .answer firstThread .pushed,
        .answer secondThread (.popped (some 7))] := by
  obtain ⟨s, hs⟩ : ∃ s : LockFreeQueue (Fin 2) ℕ,
      run (record step shown) (fun r a => Undisturbed r.1 a) (create 1, []) popDuringSwing
        = some (s, [.call firstThread (.push 7), .call secondThread .pop,
          .answer firstThread .pushed, .answer secondThread (.popped (some 7))]) := ⟨_, rfl⟩
  exact linearizable_of_reaches Nat.one_ne_zero (reaches_of_run hs)

/-! ### Conservation of values -/

/-- The value that a call pushes. -/
def Method.value : Method α → Option α
  | .push value => some value
  | .pop => none

/-- The value that an answer brings. -/
def Answer.value : Answer α → Option α
  | .pushed => none
  | .popped result => result

/-- The values that have been given to `push`. -/
def pushedValues (events : List (Linearizability.Event ι (Method α) (Answer α))) : List α :=
  (allCalls events).filterMap fun call => call.2.value

/-- The values that `pop` has returned. -/
def poppedValues (events : List (Linearizability.Event ι (Method α) (Answer α))) : List α :=
  (allAnswers events).filterMap fun answer => answer.2.value

omit [DecidableEq ι] in
/-- **First in, first out**: the values come out in the order in which they went in. -/
theorem pushed_eq_popped_append {order : List (Effect ι (Method α) (Answer α))} {values : List α}
    (h : Legal FifoMethod [] order values) :
    (allMethods order).filterMap (fun call => call.2.value)
      = (allResults order).filterMap (fun answer => answer.2.value) ++ values := by
  induction h with
  | nil => rfl
  | @append order values values' e _ he ih =>
    obtain ⟨i, m, r⟩ := e
    have hmethods : allMethods (order ++ [⟨i, m, r⟩]) = allMethods order ++ [(i, m)] := by
      simp [allMethods]
    have hresults : allResults (order ++ [⟨i, m, r⟩]) = allResults order ++ [(i, r)] := by
      simp [allResults]
    rw [hmethods, hresults, List.filterMap_append, List.filterMap_append, ih]
    cases he with
    | push value => simp [Method.value, Answer.value]
    | pop => cases values <;> simp [Method.value, Answer.value]

/-- **No value is lost, invented or returned twice**: where no call is in progress, the values
pushed are those popped and those that the nodes after the dummy node hold, each as often. -/
theorem values_conserved {dummy : ℕ} (hdummy : dummy ≠ 0)
    {events : List (Linearizability.Event ι (Method α) (Answer α))}
    (h : Reaches (record step shown) (fun r a => Undisturbed r.1 a) (create dummy, [])
      (s, events)) (hended : ∀ i, (s.threads i).ended = true) :
    ∃ nodes values, Chain (nextIn s.heap) 0 s.head (s.head :: nodes) ∧
      nodes.map (dataIn s.heap) = values.map some ∧
      (pushedValues events).Perm (poppedValues events ++ values) := by
  obtain ⟨order, c, hatomic, queue, hs⟩ := atomic_of_reaches hdummy h
  have hheadNe := hs.inv.chain.ne_null (hs.inv.chain.start_mem hs.inv.tail_mem)
  obtain ⟨nodes, rfl, _⟩ := hs.inv.chain.exists_cons hheadNe
  refine ⟨nodes, c.state, hs.inv.chain, hs.data, ?_⟩
  obtain ⟨hcalls, hanswers⟩ := hatomic.perm_of_ready fun i => (hs.fits i).ready (hended i)
  calc (pushedValues events).Perm _ := hcalls.filterMap _
    _ = _ := pushed_eq_popped_append hatomic.legal
    List.Perm _ _ := (hanswers.filterMap _).symm.append_right _

theorem values_conserved_popDuringSwing :
    ∃ nodes values, ∃ s : LockFreeQueue (Fin 2) ℕ, ∃ events,
      run (record step shown) (fun r a => Undisturbed r.1 a) (create 1, []) popDuringSwing
        = some (s, events) ∧
      Chain (nextIn s.heap) 0 s.head (s.head :: nodes) ∧
      nodes.map (dataIn s.heap) = values.map some ∧
      (pushedValues events).Perm (poppedValues events ++ values) := by
  obtain ⟨s, events, hs, hended⟩ : ∃ (s : LockFreeQueue (Fin 2) ℕ) (events : _),
      run (record step shown) (fun r a => Undisturbed r.1 a) (create 1, []) popDuringSwing
        = some (s, events) ∧ ∀ i, (s.threads i).ended = true := ⟨_, _, rfl, by decide⟩
  obtain ⟨nodes, values, hconserved⟩ :=
    values_conserved Nat.one_ne_zero (reaches_of_run hs) hended
  exact ⟨nodes, values, s, events, hs, hconserved⟩

end NetSentry.LockFreeQueue
