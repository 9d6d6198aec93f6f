import NetSentry.Core.Equiv.LockFreeQueueValues
import NetSentry.Lib.Progress

/-!
# Progress of the lock-free queue

* `tail_lag`: in every run whose steps do no harm, `tail_` designates the last node or the last but
  one.
* `ends_alone`: in every state of such a run, the call of a thread that runs alone ends within
  seventeen steps, also when its own steps do harm to other calls, or comes to a compare-exchange of
  `head_` or `tail_` that takes a node at a re-used address for the one that it has read.

`LagInv` is what the steps keep for the first, `remaining` is what a step of the call brings down
for the second, and `Leaving` is what a call keeps that has done harm.
-/

namespace NetSentry.LockFreeQueue

open Transition

variable {ι α : Type*} [DecidableEq ι] {s t : LockFreeQueue ι α} {i : ι} {queue : List ℕ}

/-! ### How far `tail_` is behind -/

/-- A node that is about to get a successor is the one that `tail_` designates, or has got one. -/
def Operation.Current (heap : ℕ → Option (Node α)) (tail : ℕ) : Operation α → Prop
  | .linkNode _ _ oldTail => oldTail = tail ∨ nextIn heap oldTail ≠ 0
  | _ => True

/-- There is at most one node behind the one that `tail_` designates. -/
structure LagInv (s : LockFreeQueue ι α) : Prop where
  lag : nextIn s.heap s.tail = 0 ∨ nextIn s.heap (nextIn s.heap s.tail) = 0
  current : ∀ i, (s.threads i).Current s.heap s.tail

/-- **One call goes on**: the others still hold on to `tail_`. -/
theorem LagInv.move (h : LagInv s) {op : Operation α}
    (hthreads : t.threads = Function.update s.threads i op)
    (hlag : nextIn t.heap t.tail = 0 ∨ nextIn t.heap (nextIn t.heap t.tail) = 0)
    (hop : op.Current t.heap t.tail)
    (hothers : ∀ j, j ≠ i → ∀ x, (s.threads j).accessed = some x →
      x = s.tail ∨ nextIn s.heap x ≠ 0 → x = t.tail ∨ nextIn t.heap x ≠ 0) : LagInv t where
  lag := hlag
  current := by
    rw [hthreads]
    apply (Function.forall_update_iff s.threads fun _ op => op.Current t.heap t.tail).mpr
    refine ⟨hop, ?_⟩
    intro j hji
    have hj := h.current j
    have hkept := hothers j hji
    generalize s.threads j = op' at hj hkept
    cases op' with
    | linkNode newNode nullNode oldTail => exact hkept oldTail rfl hj
    | _ => trivial

/-- A call goes on without a change to the links. -/
theorem LagInv.goto (h : LagInv s) {op : Operation α}
    (hthreads : t.threads = Function.update s.threads i op) (hheap : t.heap = s.heap)
    (htail : t.tail = s.tail) (hop : op.Current s.heap s.tail) : LagInv t := by
  apply h.move hthreads
  · rw [hheap, htail]
    exact h.lag
  · rwa [hheap, htail]
  · intro j _ x _ hx
    rwa [hheap, htail]

/-- `tail_` moves on to the last node. -/
theorem LagInv.setTail (h : LagInv s) {next : ℕ} {op : Operation α}
    (hnext : nextIn s.heap s.tail = next) (hne : next ≠ 0) (hop : op.Current s.heap next) :
    LagInv ({ s with tail := next }.goto i op) := by
  have hlast : nextIn s.heap next = 0 := by
    rcases h.lag with hzero | hzero
    · exact absurd (hnext ▸ hzero) hne
    · rwa [hnext] at hzero
  apply h.move rfl (.inl hlast) hop
  intro j _ x _ hx
  rcases hx with rfl | hx
  · exact .inr (hnext ▸ hne)
  · exact .inr hx

omit [DecidableEq ι] in
/-- The node behind the one that `tail_` designates exists. -/
theorem Inv.next_tail_live (h : Inv s queue) (hne : nextIn s.heap s.tail ≠ 0) :
    nextIn s.heap s.tail ∈ queue := h.chain.next_mem h.tail_mem hne

/-- `new` makes a node. -/
theorem LagInv.push (h : LagInv s) (hinv : Inv s queue) {newNode : ℕ} (value : α)
    (hfresh : (s.heap newNode).isNone) :
    LagInv ({ s with heap := Function.update s.heap newNode (some ⟨some value, 0⟩) }.goto i
      (.loadTail newNode 0)) := by
  have hnext : ∀ x, (s.heap x).isSome →
      nextIn (Function.update s.heap newNode (some ⟨some value, 0⟩)) x = nextIn s.heap x :=
    fun x hx => nextIn_update_of_ne s.heap _ (ne_of_isNone hfresh hx)
  refine h.move rfl ?_ trivial ?_
  · show nextIn (Function.update s.heap newNode _) s.tail = 0 ∨
      nextIn (Function.update s.heap newNode _)
        (nextIn (Function.update s.heap newNode _) s.tail) = 0
    rw [hnext s.tail (hinv.live s.tail hinv.tail_mem)]
    rcases h.lag with hzero | hzero
    · exact .inl hzero
    · by_cases hne : nextIn s.heap s.tail = 0
      · exact .inl hne
      · rw [hnext _ (hinv.live _ (hinv.next_tail_live hne))]
        exact .inr hzero
  · intro j _ x hx hlinked
    show x = s.tail ∨ nextIn (Function.update s.heap newNode _) x ≠ 0
    rwa [hnext x ((hinv.calls j).accessed x hx)]

/-- The new node becomes the last one, right behind the one that `tail_` designates. -/
theorem LagInv.linkNode (h : LagInv s) (hinv : Inv s queue) {newNode nullNode oldTail : ℕ}
    {node : Node α} (hop : s.threads i = .linkNode newNode nullNode oldTail)
    (hnode : s.heap oldTail = some node) (hlast : node.next = 0) :
    LagInv ({ s with
      heap := Function.update s.heap oldTail (some { node with next := newNode }) }.goto i
      (.swingTail newNode oldTail)) := by
  have hnull : nextIn s.heap oldTail = 0 := (nextIn_of_eq_some hnode).trans hlast
  have hcurrent := h.current i
  have hcall := hinv.calls i
  rw [hop] at hcurrent hcall
  obtain rfl : oldTail = s.tail := hcurrent.resolve_right fun hne => hne hnull
  have hnew : newNode ≠ s.tail := by
    intro heq
    exact (hcall.owned newNode rfl).2.2 (heq ▸ hinv.tail_mem)
  refine h.move rfl (.inr ?_) trivial ?_
  · show nextIn (Function.update s.heap s.tail _) (nextIn (Function.update s.heap s.tail _) s.tail)
      = 0
    rw [nextIn_update_some, Function.update_self]
    show Function.update (nextIn s.heap) s.tail newNode newNode = 0
    rw [Function.update_of_ne hnew]
    exact hcall.sound.1
  · intro j _ x _ hx
    rcases hx with hx | hx
    · exact .inl hx
    · right
      show nextIn (Function.update s.heap s.tail _) x ≠ 0
      by_cases hxTail : x = s.tail
      · exact absurd (hxTail ▸ hnull) hx
      · rwa [nextIn_update_of_ne s.heap _ hxTail]

/-- The old head is deleted. -/
theorem LagInv.deleteHead (h : LagInv s) (hinv : Inv s queue) {oldHead : ℕ} {result : Option α}
    (hop : s.threads i = .deleteHead oldHead result)
    (hunused : ∀ j, j ≠ i → (s.threads j).accessed ≠ some oldHead) :
    LagInv ({ s with heap := Function.update s.heap oldHead none }.goto i (.subSize result)) := by
  have hcall := hinv.calls i
  rw [hop] at hcall
  have hnot := (hcall.owned oldHead rfl).2.2
  have hnext : ∀ x, x ≠ oldHead →
      nextIn (Function.update s.heap oldHead none) x = nextIn s.heap x :=
    fun x hx => nextIn_update_of_ne s.heap none hx
  refine h.move rfl ?_ trivial ?_
  · show nextIn (Function.update s.heap oldHead none) s.tail = 0 ∨
      nextIn (Function.update s.heap oldHead none)
        (nextIn (Function.update s.heap oldHead none) s.tail) = 0
    rw [hnext s.tail fun heq => hnot (heq ▸ hinv.tail_mem)]
    rcases h.lag with hzero | hzero
    · exact .inl hzero
    · by_cases hne : nextIn s.heap s.tail = 0
      · exact .inl hne
      · rw [hnext _ fun heq => hnot (heq ▸ hinv.next_tail_live hne)]
        exact .inr hzero
  · intro j hji x hx hlinked
    show x = s.tail ∨ nextIn (Function.update s.heap oldHead none) x ≠ 0
    rwa [hnext x fun heq => hunused j hji (heq ▸ hx)]

/-- **One step of a call** keeps `tail_` close to the end. -/
theorem lagInv_advance (h : LagInv s) (hinv : Inv s queue) {spurious : Bool}
    (hharmless : s.Harmless i spurious (s.threads i))
    (hstep : s.advance i spurious (s.threads i) = some t) : LagInv t := by
  have hcall := hinv.calls i
  generalize hop : s.threads i = op at hcall hharmless hstep
  cases op with
  | idle => cases hstep
  | returned result => cases hstep
  | recheckTail newNode nullNode oldTail next =>
    simp only [advance] at hstep
    split_ifs at hstep with hsame hnull
    · obtain rfl := Option.some.inj hstep
      exact h.goto rfl rfl rfl (.inl hsame)
    · obtain rfl := Option.some.inj hstep
      exact h.goto rfl rfl rfl trivial
    · obtain rfl := Option.some.inj hstep
      exact h.goto rfl rfl rfl trivial
  | linkNode newNode nullNode oldTail =>
    obtain ⟨node, hnode, hnext⟩ := Option.map_eq_some_iff.mp hstep
    split_ifs at hnext with hfound
    · subst hnext
      have hnull : nullNode = 0 :=
        hharmless ((nextIn_of_eq_some hnode).trans hfound.1) (by simpa using hfound.2)
      exact h.linkNode hinv hop hnode (hfound.1.trans hnull)
    · subst hnext
      exact h.goto rfl rfl rfl trivial
  | helpTail newNode nullNode oldTail next =>
    simp only [advance] at hstep
    split_ifs at hstep with hfound
    · obtain rfl := Option.some.inj hstep
      have hnext : nextIn s.heap s.tail = next :=
        hfound.1 ▸ hharmless hfound.1 (by simpa using hfound.2)
      exact h.setTail hnext hcall.sound.2 trivial
    · obtain rfl := Option.some.inj hstep
      exact h.goto rfl rfl rfl trivial
  | swingTail newNode oldTail =>
    simp only [advance] at hstep
    split_ifs at hstep with hfound
    · obtain rfl := Option.some.inj hstep
      have hnext : nextIn s.heap s.tail = newNode :=
        hfound.1 ▸ hharmless hfound.1 (by simpa using hfound.2)
      exact h.setTail hnext hcall.sound trivial
    · obtain rfl := Option.some.inj hstep
      exact h.goto rfl rfl rfl trivial
  | loadTail newNode nullNode | addSize | loadHead =>
    obtain rfl := Option.some.inj hstep
    exact h.goto rfl rfl rfl trivial
  | loadNext newNode nullNode oldTail | readData oldHead nextNode =>
    obtain ⟨node, _, rfl⟩ := Option.map_eq_some_iff.mp hstep
    exact h.goto rfl rfl rfl trivial
  | loadHeadNext oldHead =>
    obtain ⟨node, _, hnext⟩ := Option.map_eq_some_iff.mp hstep
    split_ifs at hnext <;> subst hnext <;> exact h.goto rfl rfl rfl trivial
  | moveHead oldHead nextNode =>
    simp only [advance] at hstep
    split_ifs at hstep <;> obtain rfl := Option.some.inj hstep <;>
      exact h.goto rfl rfl rfl trivial
  | deleteHead oldHead result =>
    obtain ⟨node, _, rfl⟩ := Option.map_eq_some_iff.mp hstep
    exact h.deleteHead hinv hop hharmless
  | subSize result =>
    cases result with
    | none => cases hstep
    | some value =>
      obtain rfl := Option.some.inj hstep
      exact h.goto rfl rfl rfl trivial

/-- What holds in every state of a run whose steps do no harm. -/
structure Steady (s : LockFreeQueue ι α) : Prop where
  inv : ∃ queue, Inv s queue
  lag : LagInv s
  values : ValueInv s

/-- **One step keeps `tail_` close to the end** when it does no harm. -/
theorem steady_step {a : Action ι α} (h : Steady s) (hundisturbed : Undisturbed s a)
    (hstep : step s a = some t) : Steady t := by
  obtain ⟨⟨queue, hinv⟩, hlag, hvalues⟩ := h
  refine ⟨inv_step hinv hundisturbed hstep, ?_, valueInv_step hvalues hstep⟩
  cases a with
  | push i newNode value =>
    simp only [step] at hstep
    split_ifs at hstep with hcond
    obtain rfl := Option.some.inj hstep
    exact hlag.push hinv value hcond.2.2
  | pop i =>
    simp only [step] at hstep
    split_ifs at hstep
    obtain rfl := Option.some.inj hstep
    exact hlag.goto rfl rfl rfl trivial
  | advance i spurious => exact lagInv_advance hlag hinv hundisturbed hstep

theorem steady_of_reaches {dummy : ℕ} (hdummy : dummy ≠ 0)
    (h : Reaches step Undisturbed (create dummy) s) : Steady s := by
  have hnext : nextIn (create dummy : LockFreeQueue ι α).heap dummy = 0 := by
    rw [create, nextIn_update_some, Function.update_self]
  exact h.invariant (fun _ _ _ hs hundisturbed hstep => steady_step hs hundisturbed hstep)
    ⟨⟨[dummy], inv_create hdummy⟩, ⟨.inl hnext, fun _ => trivial⟩, valueInv_create hdummy⟩

/-- **`tail_` lags at most one node behind**, in every run whose steps do no harm. -/
theorem tail_lag {dummy : ℕ} (hdummy : dummy ≠ 0)
    (h : Reaches step Undisturbed (create dummy) s) :
    ∃ before after, Chain (nextIn s.heap) 0 s.head (before ++ s.tail :: after) ∧
      after.length ≤ 1 := by
  obtain ⟨⟨queue, hinv⟩, hlag, _⟩ := steady_of_reaches hdummy h
  obtain ⟨before, after, rfl, hchain⟩ := hinv.chain.exists_suffix hinv.tail_mem
  refine ⟨before, after, hinv.chain, ?_⟩
  have hafter := hchain.tail
  by_cases hlast : nextIn s.heap s.tail = 0
  · rw [hlast] at hafter
    rw [hafter.eq_nil]
    exact Nat.zero_le 1
  · obtain ⟨rest, rfl, hrest⟩ := hafter.exists_cons hlast
    rw [hlag.lag.resolve_left hlast] at hrest
    rw [hrest.eq_nil]
    exact Nat.le_refl 1

theorem tail_lag_popDuringSecondPush :
    ∃ s : LockFreeQueue (Fin 2) ℕ,
      run step Undisturbed (create 1) popDuringSecondPush = some s ∧
      ∃ before after, Chain (nextIn s.heap) 0 s.head (before ++ s.tail :: after) ∧
        after.length ≤ 1 := by
  obtain ⟨s, hs⟩ : ∃ s : LockFreeQueue (Fin 2) ℕ,
      run step Undisturbed (create 1) popDuringSecondPush = some s := ⟨_, rfl⟩
  exact ⟨s, hs, tail_lag Nat.one_ne_zero (reaches_of_run hs)⟩

/-! ### A thread that runs alone -/

/-- The steps that a push takes from its load of `tail_`: four more where `tail_` lags behind, and
four more where `null_node` is not null any more. -/
def pushSteps (heap : ℕ → Option (Node α)) (tail nullNode : ℕ) : ℕ :=
  6 + (if nullNode = 0 then 0 else 4) + if nextIn heap tail = 0 then 0 else 4

/-- A bound for the steps that a call takes when its thread runs alone. -/
def Operation.remaining (heap : ℕ → Option (Node α)) (head tail : ℕ) : Operation α → ℕ
  | .idle | .returned _ => 0
  | .loadTail _ nullNode => pushSteps heap tail nullNode
  | .loadNext _ nullNode oldTail =>
    if oldTail = tail then pushSteps heap tail nullNode - 1 else 17
  | .recheckTail _ nullNode oldTail next =>
    if oldTail = tail ∧ next = nextIn heap oldTail then pushSteps heap tail nullNode - 2 else 16
  | .linkNode _ nullNode oldTail =>
    if nextIn heap oldTail = 0 then if nullNode = 0 then 3 else 7 else 15
  | .helpTail _ nullNode oldTail _ =>
    if oldTail = tail then if nullNode = 0 then 7 else 11 else 15
  | .swingTail _ _ => 2
  | .addSize => 1
  | .loadHead => 6
  | .loadHeadNext oldHead => if oldHead = head then 5 else 7
  | .moveHead oldHead _ => if oldHead = head then 4 else 6
  | .readData _ _ => 3
  | .deleteHead _ _ => 2
  | .subSize _ => 1

theorem pushSteps_le (heap : ℕ → Option (Node α)) (tail nullNode : ℕ) :
    pushSteps heap tail nullNode ≤ 14 := by
  unfold pushSteps
  split_ifs <;> omega

theorem remaining_le (heap : ℕ → Option (Node α)) (head tail : ℕ) (op : Operation α) :
    op.remaining heap head tail ≤ 17 := by
  cases op with
  | loadTail _ nullNode =>
    have hle := pushSteps_le heap tail nullNode
    show pushSteps heap tail nullNode ≤ 17
    omega
  | loadNext _ nullNode oldTail | recheckTail _ nullNode oldTail next =>
    have hle := pushSteps_le heap tail nullNode
    simp only [Operation.remaining]
    split_ifs <;> omega
  | idle | returned _ | swingTail _ _ | addSize | loadHead | readData _ _ | deleteHead _ _
  | subSize _ => simp [Operation.remaining]
  | _ =>
    simp only [Operation.remaining]
    split_ifs <;> omega

/-- What a call still has to do in a state of the queue. -/
def stepsLeft (s : LockFreeQueue ι α) (i : ι) : ℕ :=
  (s.threads i).remaining s.heap s.head s.tail

theorem stepsLeft_goto (s : LockFreeQueue ι α) (i : ι) (op : Operation α) :
    (s.goto i op).stepsLeft i = op.remaining s.heap s.head s.tail := by
  unfold stepsLeft
  rw [show (s.goto i op).threads i = op from Function.update_self ..]
  rfl

/-- The next step of the call is a compare-exchange that is mistaken: the pointer is the one that it
expects, but the node at this address has not got the successor that the call has read. -/
def Mistaken (s : LockFreeQueue ι α) : Operation α → Prop
  | .helpTail _ _ oldTail next => s.tail = oldTail ∧ nextIn s.heap oldTail ≠ next
  | .moveHead oldHead nextNode => s.head = oldHead ∧ nextIn s.heap oldHead ≠ nextNode
  | _ => False

/-- The call has got its place in the queue: it has linked its node, or has moved `head_`. -/
def Operation.closing : Operation α → Bool
  | .swingTail _ _ | .addSize | .readData _ _ | .deleteHead _ _ | .subSize _ => true
  | _ => false

/-- The last steps of a call bring its end closer. -/
theorem stepsLeft_closing (hclosing : (s.threads i).closing = true)
    (hstep : s.advance i false (s.threads i) = some t) : t.stepsLeft i < s.stepsLeft i := by
  rw [show s.stepsLeft i = (s.threads i).remaining s.heap s.head s.tail from rfl]
  generalize s.threads i = op at hclosing hstep
  cases op with
  | swingTail newNode oldTail =>
    simp only [advance] at hstep
    split_ifs at hstep <;> obtain rfl := Option.some.inj hstep <;> rw [stepsLeft_goto] <;>
      exact Nat.lt_succ_self 1
  | addSize =>
    obtain rfl := Option.some.inj hstep
    rw [stepsLeft_goto]
    exact Nat.one_pos
  | readData oldHead nextNode =>
    obtain ⟨node, _, rfl⟩ := Option.map_eq_some_iff.mp hstep
    rw [stepsLeft_goto]
    exact Nat.lt_succ_self 2
  | deleteHead oldHead result =>
    obtain ⟨node, _, rfl⟩ := Option.map_eq_some_iff.mp hstep
    rw [stepsLeft_goto]
    exact Nat.lt_succ_self 1
  | subSize result =>
    cases result with
    | none => cases hstep
    | some value =>
      obtain rfl := Option.some.inj hstep
      rw [stepsLeft_goto]
      exact Nat.one_pos
  | _ => cases hclosing

/-- **Each step of a call that runs alone** brings its end closer, when it is not mistaken. -/
theorem stepsLeft_advance (h : Steady s) (hnot : ¬ s.Mistaken (s.threads i))
    (hstep : s.advance i false (s.threads i) = some t) : t.stepsLeft i < s.stepsLeft i := by
  obtain ⟨⟨queue, hinv⟩, hlag, _⟩ := h
  have hcurrent := hlag.current i
  have hcall := hinv.calls i
  have hclosing := stepsLeft_closing (s := s) (t := t) (i := i)
  rw [show s.stepsLeft i = (s.threads i).remaining s.heap s.head s.tail from rfl] at hclosing ⊢
  generalize hop : s.threads i = op at hcurrent hcall hnot hstep hclosing
  cases op with
  | idle => cases hstep
  | returned result => cases hstep
  | loadTail newNode nullNode =>
    obtain rfl := Option.some.inj hstep
    rw [stepsLeft_goto]
    simp only [Operation.remaining, pushSteps, if_true]
    omega
  | loadNext newNode nullNode oldTail =>
    obtain ⟨node, hnode, rfl⟩ := Option.map_eq_some_iff.mp hstep
    rw [stepsLeft_goto]
    simp only [Operation.remaining, pushSteps, nextIn_of_eq_some hnode, and_true]
    split_ifs <;> omega
  | recheckTail newNode nullNode oldTail next =>
    have hle := pushSteps_le s.heap s.tail nullNode
    simp only [advance] at hstep
    split_ifs at hstep with hsame hnull
    · obtain rfl := Option.some.inj hstep
      rw [stepsLeft_goto]
      subst hsame hnull
      simp only [Operation.remaining, pushSteps]
      split_ifs <;> omega
    · obtain rfl := Option.some.inj hstep
      rw [stepsLeft_goto]
      subst hsame
      simp only [Operation.remaining, pushSteps, if_true]
      split_ifs <;> omega
    · obtain rfl := Option.some.inj hstep
      rw [stepsLeft_goto]
      simp only [Operation.remaining, hsame, false_and, if_false]
      omega
  | linkNode newNode nullNode oldTail =>
    obtain ⟨node, hnode, hnext⟩ := Option.map_eq_some_iff.mp hstep
    have hnextIn := nextIn_of_eq_some hnode
    by_cases hfound : node.next = nullNode
    · rw [if_pos ⟨hfound, Bool.false_ne_true⟩] at hnext
      subst hnext
      rw [stepsLeft_goto]
      simp only [Operation.remaining]
      split_ifs <;> omega
    · rw [if_neg fun hboth => hfound hboth.1] at hnext
      subst hnext
      rw [stepsLeft_goto]
      -- the compare-exchange has loaded the successor into `null_node`
      have hle := pushSteps_le s.heap s.tail node.next
      simp only [Operation.remaining, hnextIn]
      by_cases hlast : node.next = 0
      · obtain rfl : oldTail = s.tail :=
          hcurrent.resolve_right fun hne => hne (hnextIn.trans hlast)
        rw [hlast] at hnextIn hfound
        simp only [pushSteps, hlast, hnextIn, Ne.symm hfound, if_true, if_false]
        omega
      · rw [if_neg hlast]
        omega
  | helpTail newNode nullNode oldTail next =>
    have hle := pushSteps_le s.heap s.tail nullNode
    by_cases hfound : s.tail = oldTail
    · rw [advance, if_pos ⟨hfound, Bool.false_ne_true⟩] at hstep
      obtain rfl := Option.some.inj hstep
      rw [stepsLeft_goto]
      subst hfound
      have hnext : nextIn s.heap s.tail = next := not_not.mp fun hne => hnot ⟨rfl, hne⟩
      have hlast : nextIn s.heap next = 0 := by
        rcases hlag.lag with hzero | hzero
        · exact absurd (hnext.symm.trans hzero) hcall.sound.2
        · rwa [hnext] at hzero
      simp only [Operation.remaining, pushSteps, hlast, if_true]
      split_ifs <;> omega
    · rw [advance, if_neg fun hboth => hfound hboth.1] at hstep
      obtain rfl := Option.some.inj hstep
      rw [stepsLeft_goto]
      simp only [Operation.remaining, Ne.symm hfound, if_false]
      omega
  | loadHead =>
    obtain rfl := Option.some.inj hstep
    rw [stepsLeft_goto]
    simp only [Operation.remaining, if_true]
    omega
  | loadHeadNext oldHead =>
    obtain ⟨node, _, hnext⟩ := Option.map_eq_some_iff.mp hstep
    split_ifs at hnext <;> subst hnext <;> rw [stepsLeft_goto] <;>
      simp only [Operation.remaining] <;> split_ifs <;> omega
  | moveHead oldHead nextNode =>
    by_cases hfound : s.head = oldHead
    · rw [advance, if_pos ⟨hfound, Bool.false_ne_true⟩] at hstep
      obtain rfl := Option.some.inj hstep
      rw [stepsLeft_goto]
      simp only [Operation.remaining]
      split_ifs <;> omega
    · rw [advance, if_neg fun hboth => hfound hboth.1] at hstep
      obtain rfl := Option.some.inj hstep
      rw [stepsLeft_goto]
      simp only [Operation.remaining, Ne.symm hfound, if_true, if_false]
      omega
  | swingTail newNode oldTail | addSize | readData oldHead nextNode | deleteHead oldHead result
  | subSize result => exact hclosing rfl hstep

/-- A call that has not ended can go on: the node that it accesses exists. -/
theorem advance_ne_none (h : Steady s) (hended : (s.threads i).ended = false) :
    s.advance i false (s.threads i) ≠ none := by
  obtain ⟨⟨queue, hinv⟩, _, hvalues⟩ := h
  have haccessed := (hinv.calls i).accessed
  have htaken := hvalues.taken i
  -- the steps that access a node
  have hmap : ∀ x, (s.threads i).accessed = some x → ∀ f : Node α → LockFreeQueue ι α,
      (s.heap x).map f ≠ none := by
    intro x hx f hnone
    rw [Option.map_eq_none_iff] at hnone
    have hlive := haccessed x hx
    rw [hnone] at hlive
    cases hlive
  generalize s.threads i = op at hended hmap htaken
  cases op with
  | idle => cases hended
  | returned result => cases hended
  | loadNext newNode nullNode oldTail => exact hmap oldTail rfl _
  | linkNode newNode nullNode oldTail => exact hmap oldTail rfl _
  | loadHeadNext oldHead => exact hmap oldHead rfl _
  | readData oldHead nextNode => exact hmap nextNode rfl _
  | deleteHead oldHead result => exact hmap oldHead rfl _
  | subSize result =>
    cases result with
    | none => exact absurd rfl htaken
    | some value => exact Option.some_ne_none _
  | recheckTail newNode nullNode oldTail next | helpTail newNode nullNode oldTail next
  | swingTail newNode oldTail | moveHead oldHead nextNode =>
    simp only [advance]
    split_ifs <;> exact Option.some_ne_none _
  | _ => exact Option.some_ne_none _

/-- A call that has nothing left to do but to end: what it still reads and deletes exists, and what
it returns is a value. -/
def Leaving (heap : ℕ → Option (Node α)) : Operation α → Prop
  | .idle | .returned _ | .swingTail _ _ | .addSize => True
  | .readData oldHead nextNode =>
    (heap oldHead).isSome ∧ ∃ node, heap nextNode = some node ∧ node.data ≠ none
  | .deleteHead oldHead result => (heap oldHead).isSome ∧ result ≠ none
  | .subSize result => result ≠ none
  | _ => False

/-- **The last steps of a call**, whatever harm it has done. -/
theorem leaving_advance (h : Leaving s.heap (s.threads i))
    (hstep : s.advance i false (s.threads i) = some t) :
    Leaving t.heap (t.threads i) ∧ (s.threads i).closing = true := by
  have hgoto : ∀ (u : LockFreeQueue ι α) (op : Operation α), (u.goto i op).threads i = op :=
    fun _ _ => Function.update_self ..
  generalize s.threads i = op at h hstep
  cases op with
  | idle => cases hstep
  | returned result => cases hstep
  | swingTail newNode oldTail =>
    simp only [advance] at hstep
    split_ifs at hstep <;> obtain rfl := Option.some.inj hstep <;> rw [hgoto] <;>
      exact ⟨trivial, rfl⟩
  | addSize =>
    obtain rfl := Option.some.inj hstep
    rw [hgoto]
    exact ⟨trivial, rfl⟩
  | readData oldHead nextNode =>
    obtain ⟨hlive, node, hnode, hdata⟩ := h
    obtain ⟨node', hnode', rfl⟩ := Option.map_eq_some_iff.mp hstep
    obtain rfl := Option.some.inj (hnode.symm.trans hnode')
    rw [hgoto]
    exact ⟨⟨hlive, hdata⟩, rfl⟩
  | deleteHead oldHead result =>
    obtain ⟨node, _, rfl⟩ := Option.map_eq_some_iff.mp hstep
    rw [hgoto]
    exact ⟨h.2, rfl⟩
  | subSize result =>
    cases result with
    | none => cases hstep
    | some value =>
      obtain rfl := Option.some.inj hstep
      rw [hgoto]
      exact ⟨trivial, rfl⟩
  | _ => exact h.elim

omit [DecidableEq ι] in
/-- What `pop` is about to move `head_` to is a node with a value. -/
theorem Steady.leaving_readData (h : Steady s) {nextNode : ℕ}
    (hop : s.threads i = .moveHead s.head nextNode) (hnext : nextIn s.heap s.head = nextNode) :
    Leaving s.heap (.readData s.head nextNode) := by
  obtain ⟨⟨queue, hinv⟩, _, hvalues⟩ := h
  have hhead := hinv.chain.start_mem hinv.tail_mem
  have hne : nextNode ≠ 0 := by
    have hsound := (hinv.calls i).sound
    rw [hop] at hsound
    exact hsound
  have hmem : nextNode ∈ queue := hnext ▸ hinv.chain.next_mem hhead (hnext ▸ hne)
  obtain ⟨node, hnode⟩ := Option.isSome_iff_exists.mp (hinv.live nextNode hmem)
  have hvalue : ¬ Vacant s.heap nextNode := by
    apply hvalues.upcoming i
    rw [hop]
    exact List.mem_singleton_self _
  exact ⟨hinv.live s.head hhead, node, hnode, fun hdata => hvalue ⟨node, hnode, hdata⟩⟩

/-- **One step of a call that runs alone** does no harm, or the call has nothing left to do but to
end. -/
theorem steady_or_leaving_advance (h : Steady s) (hnot : ¬ s.Mistaken (s.threads i))
    (hstep : s.advance i false (s.threads i) = some t) :
    Steady t ∨ Leaving t.heap (t.threads i) := by
  by_cases hharmless : s.Harmless i false (s.threads i)
  · exact .inl (steady_step h (a := .advance i false) hharmless hstep)
  right
  have hgoto : ∀ (u : LockFreeQueue ι α) (op : Operation α), (u.goto i op).threads i = op :=
    fun _ _ => Function.update_self ..
  have htaken := h.values.taken i
  have hread : ∀ nextNode, s.threads i = .moveHead s.head nextNode →
      nextIn s.heap s.head = nextNode → Leaving s.heap (.readData s.head nextNode) :=
    fun _ => h.leaving_readData
  generalize s.threads i = op at hnot hharmless hstep htaken hread
  cases op with
  | linkNode newNode nullNode oldTail =>
    obtain ⟨node, hnode, hnext⟩ := Option.map_eq_some_iff.mp hstep
    have hfound : node.next = nullNode := by
      by_contra hne
      exact hharmless fun heq => absurd ((nextIn_of_eq_some hnode).symm.trans heq) hne
    rw [if_pos ⟨hfound, Bool.false_ne_true⟩] at hnext
    subst hnext
    rw [hgoto]
    trivial
  | helpTail newNode nullNode oldTail next =>
    exact absurd (fun hfound _ => not_not.mp fun hne => hnot ⟨hfound, hne⟩) hharmless
  | swingTail newNode oldTail =>
    simp only [advance] at hstep
    split_ifs at hstep <;> obtain rfl := Option.some.inj hstep <;> rw [hgoto] <;> trivial
  | moveHead oldHead nextNode =>
    have hfound : s.head = oldHead := by
      by_contra hne
      exact hharmless fun heq => absurd heq hne
    have hnext : nextIn s.heap oldHead = nextNode := not_not.mp fun hne => hnot ⟨hfound, hne⟩
    rw [advance, if_pos ⟨hfound, Bool.false_ne_true⟩] at hstep
    obtain rfl := Option.some.inj hstep
    subst hfound
    rw [hgoto]
    exact hread nextNode rfl hnext
  | deleteHead oldHead result =>
    obtain ⟨node, _, rfl⟩ := Option.map_eq_some_iff.mp hstep
    rw [hgoto]
    rintro rfl
    exact htaken rfl
  | _ => exact absurd trivial hharmless

/-- A call that has nothing left to do but to end can do so. -/
theorem advance_ne_none_of_leaving (h : Leaving s.heap (s.threads i))
    (hended : (s.threads i).ended = false) : s.advance i false (s.threads i) ≠ none := by
  have hmap : ∀ x, (s.heap x).isSome → ∀ f : Node α → LockFreeQueue ι α,
      (s.heap x).map f ≠ none := by
    intro x hlive f hnone
    rw [Option.map_eq_none_iff.mp hnone] at hlive
    cases hlive
  generalize s.threads i = op at h hended
  cases op with
  | idle => cases hended
  | returned result => cases hended
  | swingTail newNode oldTail =>
    simp only [advance]
    split_ifs <;> exact Option.some_ne_none _
  | addSize => exact Option.some_ne_none _
  | readData oldHead nextNode =>
    obtain ⟨_, node, hnode, _⟩ := h
    exact hmap nextNode (Option.isSome_iff_exists.mpr ⟨node, hnode⟩) _
  | deleteHead oldHead result => exact hmap oldHead h.1 _
  | subSize result =>
    cases result with
    | none => exact absurd rfl h
    | some value => exact Option.some_ne_none _
  | _ => exact h.elim

/-- Thread `i` runs alone, and its compare-exchange is not mistaken. -/
def RunsAlone (i : ι) (s : LockFreeQueue ι α) (a : Action ι α) : Prop :=
  a = .advance i false ∧ ¬ s.Mistaken (s.threads i)

/-- **A call whose thread runs alone ends**, in every state of a run whose steps do no harm: within
seventeen steps, of which none reads or deletes a node that does not exist, it has ended, or it has
come to a compare-exchange that takes the node at a re-used address for the one that it has read.
Its own steps may do harm to the other calls. -/
theorem ends_alone {dummy : ℕ} (hdummy : dummy ≠ 0)
    (h : Reaches step Undisturbed (create dummy) s) (i : ι) :
    ∃ as t, Path step (RunsAlone i) s as t ∧ as.length ≤ 17 ∧
      ((t.threads i).ended = true ∨ t.Mistaken (t.threads i)) := by
  let inv := fun s : LockFreeQueue ι α => Steady s ∨ Leaving s.heap (s.threads i)
  have hkeep : ∀ (s : LockFreeQueue ι α) a t, inv s → RunsAlone i s a → step s a = some t →
      inv t := by
    rintro s a t (hs | hs) ⟨rfl, hnot⟩ hstep
    · exact steady_or_leaving_advance hs hnot hstep
    · exact .inr (leaving_advance hs hstep).1
  have hless : ∀ (s : LockFreeQueue ι α) a t, inv s → RunsAlone i s a → step s a = some t →
      t.stepsLeft i < s.stepsLeft i := by
    rintro s a t (hs | hs) ⟨rfl, hnot⟩ hstep
    · exact stepsLeft_advance hs hnot hstep
    · exact stepsLeft_closing (leaving_advance hs hstep).2 hstep
  have hs : inv s := .inl (steady_of_reaches hdummy h)
  obtain ⟨as, t, hpath, hhalted, hlength⟩ := exists_halted hkeep hless hs
  refine ⟨as, t, hpath, hlength.trans (remaining_le s.heap s.head s.tail _), ?_⟩
  rcases hended : (t.threads i).ended with _ | _
  · right
    by_contra hnot
    have hnone := hhalted (.advance i false) ⟨rfl, hnot⟩
    rcases hpath.reaches.invariant hkeep hs with ht | ht
    · exact advance_ne_none ht hended hnone
    · exact advance_ne_none_of_leaving ht hended hnone
  · exact .inl rfl

/-- A node has been linked while `tail_` designates the one before it, and a pop begins.  The pop is
going to move `head_` past `tail_`. -/
def popAfterLink : List (Action (Fin 2) ℕ) :=
  .push firstThread 2 7 :: List.replicate 4 (.advance firstThread false) ++ [.pop secondThread]

theorem ends_alone_popAfterLink :
    ∃ s : LockFreeQueue (Fin 2) ℕ, run step Undisturbed (create 1) popAfterLink = some s ∧
      s.tail = 1 ∧ nextIn s.heap 1 = 2 ∧
      ∃ as t, Path step (RunsAlone secondThread) s as t ∧ as.length ≤ 17 ∧
        ((t.threads secondThread).ended = true ∨ t.Mistaken (t.threads secondThread)) := by
  obtain ⟨s, hs, htail, hnext⟩ : ∃ s : LockFreeQueue (Fin 2) ℕ,
      run step Undisturbed (create 1) popAfterLink = some s ∧ s.tail = 1 ∧ nextIn s.heap 1 = 2 :=
    ⟨_, rfl, rfl, rfl⟩
  exact ⟨s, hs, htail, hnext, ends_alone Nat.one_ne_zero (reaches_of_run hs) secondThread⟩

end NetSentry.LockFreeQueue
