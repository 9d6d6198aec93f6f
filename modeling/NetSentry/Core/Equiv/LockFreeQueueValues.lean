import NetSentry.Core.Equiv.LockFreeQueue

/-!
# What a pop returns

The dummy node holds no value, and a `pop` returns what the value of a node designates without a
look at it.

* `taken_of_reaches`: in every run, whatever the other calls do, what a `pop` has read from a node
  is a value.

`ValueInv` is why: no pointer leads to a node without a value but `head_` and `tail_`, from which
`pop` goes on to the next node first.
-/

namespace NetSentry.LockFreeQueue

open Transition

variable {ι α : Type*} [DecidableEq ι]

/-! ### The invariant -/

/-- There is a node without a value at an address, as the dummy node is one. -/
def Vacant (heap : ℕ → Option (Node α)) (x : ℕ) : Prop :=
  ∃ node, heap x = some node ∧ node.data = none

/-- The nodes that a call may link, or read the value of. -/
def Operation.upcoming : Operation α → List ℕ
  | .loadTail newNode _ | .loadNext newNode _ _ | .linkNode newNode _ _ | .swingTail newNode _ =>
    [newNode]
  | .recheckTail newNode _ _ next | .helpTail newNode _ _ next => [newNode, next]
  | .moveHead _ nextNode | .readData _ nextNode => [nextNode]
  | _ => []

/-- What a `pop` has read and is going to return. -/
def Operation.taken : Operation α → Option (Option α)
  | .deleteHead _ result | .subSize result => some result
  | _ => none

/-- The null pointer, the pointers between nodes and the calls lead to no node without a value. -/
structure ValueInv (s : LockFreeQueue ι α) : Prop where
  null : ¬ Vacant s.heap 0
  next : ∀ y, ¬ Vacant s.heap (nextIn s.heap y)
  upcoming : ∀ i, ∀ x ∈ (s.threads i).upcoming, ¬ Vacant s.heap x
  taken : ∀ i, (s.threads i).taken ≠ some none

omit [DecidableEq ι] in
theorem valueInv_create {dummy : ℕ} (hdummy : dummy ≠ 0) :
    ValueInv (create dummy : LockFreeQueue ι α) := by
  -- the dummy node is the only one without a value, and no pointer leads to it
  have hvacant : ∀ x, x ≠ dummy → ¬ Vacant (create dummy : LockFreeQueue ι α).heap x := by
    rintro x hx ⟨node, hnode, _⟩
    change Function.update (fun _ => none) dummy _ x = some node at hnode
    rw [Function.update_of_ne hx] at hnode
    cases hnode
  refine ⟨hvacant 0 hdummy.symm, ?_, fun _ => List.forall_mem_nil _,
    fun _ => (Option.some_ne_none none).symm⟩
  intro y
  have hnext : nextIn (create dummy : LockFreeQueue ι α).heap y = 0 := by
    rw [create, nextIn_update_some]
    by_cases hy : y = dummy
    · rw [hy, Function.update_self]
    · rw [Function.update_of_ne hy]
      rfl
  rw [hnext]
  exact hvacant 0 hdummy.symm

theorem vacant_update {heap : ℕ → Option (Node α)} {x y : ℕ} {node : Option (Node α)}
    (h : Vacant (Function.update heap x node) y) :
    Vacant heap y ∨ y = x ∧ ∃ n, node = some n ∧ n.data = none := by
  obtain ⟨n, hn, hdata⟩ := h
  by_cases hyx : y = x
  · subst hyx
    rw [Function.update_self] at hn
    exact .inr ⟨rfl, n, hn, hdata⟩
  · rw [Function.update_of_ne hyx] at hn
    exact .inl ⟨n, hn, hdata⟩

section Values

variable {s t : LockFreeQueue ι α} {i : ι} {op : Operation α}

/-- **One call goes on**, and no node loses its value. -/
theorem ValueInv.move (h : ValueInv s) (hthreads : t.threads = Function.update s.threads i op)
    (hvacant : ∀ x, Vacant t.heap x → Vacant s.heap x)
    (hnext : ∀ y, ¬ Vacant s.heap (nextIn t.heap y))
    (hupcoming : ∀ x ∈ op.upcoming, ¬ Vacant s.heap x) (htaken : op.taken ≠ some none) :
    ValueInv t where
  null := fun hnull => h.null (hvacant 0 hnull)
  next := fun y hy => hnext y (hvacant _ hy)
  upcoming := by
    rw [hthreads]
    apply (Function.forall_update_iff s.threads
      fun _ op => ∀ x ∈ op.upcoming, ¬ Vacant t.heap x).mpr
    constructor
    · intro x hx hvac
      exact hupcoming x hx (hvacant x hvac)
    · intro j _ x hx hvac
      exact h.upcoming j x hx (hvacant x hvac)
  taken := by
    rw [hthreads]
    apply (Function.forall_update_iff s.threads fun _ op => op.taken ≠ some none).mpr
    exact ⟨htaken, fun j _ => h.taken j⟩

/-- A call goes on without a change to the nodes. -/
theorem ValueInv.goto (h : ValueInv s) (hheap : t.heap = s.heap)
    (hthreads : t.threads = Function.update s.threads i op)
    (hupcoming : ∀ x ∈ op.upcoming, ¬ Vacant s.heap x) (htaken : op.taken ≠ some none) :
    ValueInv t := by
  apply h.move hthreads _ _ hupcoming htaken
  · intro x hx
    rwa [hheap] at hx
  · intro y
    rw [hheap]
    exact h.next y

/-- A call goes on and has no more to do with nodes. -/
theorem ValueInv.leave (h : ValueInv s) (hheap : t.heap = s.heap)
    (hthreads : t.threads = Function.update s.threads i op) (hupcoming : op.upcoming = [])
    (htaken : op.taken = none) : ValueInv t := by
  apply h.goto hheap hthreads
  · rw [hupcoming]
    exact List.forall_mem_nil _
  · rw [htaken]
    exact (Option.some_ne_none none).symm

omit [DecidableEq ι] in
/-- A node is deleted, or one is written whose successor is not without a value. -/
theorem ValueInv.not_vacant_next_update (h : ValueInv s) {x : ℕ} {node : Option (Node α)}
    (hnode : ∀ n, node = some n → ¬ Vacant s.heap n.next) (y : ℕ) :
    ¬ Vacant s.heap (nextIn (Function.update s.heap x node) y) := by
  by_cases hyx : y = x
  · subst hyx
    unfold nextIn
    rw [Function.update_self]
    cases node with
    | none => exact h.null
    | some n => exact hnode n rfl
  · rw [nextIn_update_of_ne s.heap node hyx]
    exact h.next y

omit [DecidableEq ι] in
/-- What a node points to. -/
theorem ValueInv.not_vacant_next (h : ValueInv s) {x : ℕ} {node : Node α}
    (hnode : s.heap x = some node) : ¬ Vacant s.heap node.next := by
  rw [← nextIn_of_eq_some hnode]
  exact h.next x

/-- **One step of a call** keeps the invariant. -/
theorem valueInv_advance (h : ValueInv s) {spurious : Bool}
    (hstep : s.advance i spurious (s.threads i) = some t) : ValueInv t := by
  have hupcoming := h.upcoming i
  have htaken := h.taken i
  have hnone : (none : Option (Option α)) ≠ some none := (Option.some_ne_none none).symm
  generalize hop : s.threads i = op at hupcoming htaken hstep
  cases op with
  | idle => cases hstep
  | returned result => cases hstep
  | loadTail newNode nullNode =>
    obtain rfl := Option.some.inj hstep
    exact h.goto rfl rfl hupcoming hnone
  | loadNext newNode nullNode oldTail =>
    obtain ⟨node, hnode, rfl⟩ := Option.map_eq_some_iff.mp hstep
    refine h.goto rfl rfl (List.forall_mem_cons.mpr ⟨?_, ?_⟩) hnone
    · exact hupcoming newNode (List.mem_singleton_self _)
    · exact List.forall_mem_singleton.mpr (h.not_vacant_next hnode)
  | recheckTail newNode nullNode oldTail next =>
    have hnew : ∀ x ∈ [newNode], ¬ Vacant s.heap x :=
      List.forall_mem_singleton.mpr (List.forall_mem_cons.mp hupcoming).1
    simp only [advance] at hstep
    split_ifs at hstep
    · obtain rfl := Option.some.inj hstep
      exact h.goto rfl rfl hnew hnone
    · obtain rfl := Option.some.inj hstep
      exact h.goto rfl rfl hupcoming hnone
    · obtain rfl := Option.some.inj hstep
      exact h.goto rfl rfl hnew hnone
  | linkNode newNode nullNode oldTail =>
    obtain ⟨node, hnode, hnext⟩ := Option.map_eq_some_iff.mp hstep
    split_ifs at hnext
    · subst hnext
      refine h.move rfl ?_ ?_ hupcoming hnone
      · intro x hx
        -- the node keeps its value
        rcases vacant_update hx with hvac | ⟨rfl, n, hn, hdata⟩
        · exact hvac
        · obtain rfl := Option.some.inj hn
          exact ⟨node, hnode, hdata⟩
      · apply h.not_vacant_next_update
        rintro n ⟨⟩
        exact hupcoming newNode (List.mem_singleton_self _)
    · subst hnext
      exact h.goto rfl rfl hupcoming hnone
  | helpTail newNode nullNode oldTail next =>
    have hnew : ∀ x ∈ [newNode], ¬ Vacant s.heap x :=
      List.forall_mem_singleton.mpr (List.forall_mem_cons.mp hupcoming).1
    simp only [advance] at hstep
    split_ifs at hstep <;> obtain rfl := Option.some.inj hstep <;>
      exact h.goto rfl rfl hnew hnone
  | swingTail newNode oldTail =>
    simp only [advance] at hstep
    split_ifs at hstep <;> obtain rfl := Option.some.inj hstep <;>
      exact h.leave rfl rfl rfl rfl
  | addSize =>
    obtain rfl := Option.some.inj hstep
    exact h.leave rfl rfl rfl rfl
  | loadHead =>
    obtain rfl := Option.some.inj hstep
    exact h.leave rfl rfl rfl rfl
  | loadHeadNext oldHead =>
    obtain ⟨node, hnode, hnext⟩ := Option.map_eq_some_iff.mp hstep
    split_ifs at hnext
    · subst hnext
      exact h.leave rfl rfl rfl rfl
    · subst hnext
      exact h.goto rfl rfl (List.forall_mem_singleton.mpr (h.not_vacant_next hnode)) hnone
  | moveHead oldHead nextNode =>
    simp only [advance] at hstep
    split_ifs at hstep
    · obtain rfl := Option.some.inj hstep
      exact h.goto rfl rfl hupcoming hnone
    · obtain rfl := Option.some.inj hstep
      exact h.leave rfl rfl rfl rfl
  | readData oldHead nextNode =>
    obtain ⟨node, hnode, rfl⟩ := Option.map_eq_some_iff.mp hstep
    refine h.goto rfl rfl (List.forall_mem_nil _) ?_
    -- the node that is read has a value
    intro hnone
    exact hupcoming nextNode (List.mem_singleton_self _) ⟨node, hnode, Option.some.inj hnone⟩
  | deleteHead oldHead result =>
    obtain ⟨node, _, rfl⟩ := Option.map_eq_some_iff.mp hstep
    refine h.move rfl ?_ ?_ (List.forall_mem_nil _) htaken
    · intro x hx
      rcases vacant_update hx with hvac | ⟨_, _, hn, _⟩
      · exact hvac
      · cases hn
    · apply h.not_vacant_next_update
      rintro n ⟨⟩
  | subSize result =>
    cases result with
    | none => exact absurd rfl htaken
    | some value =>
      obtain rfl := Option.some.inj hstep
      exact h.leave rfl rfl rfl rfl

/-- **One step keeps the invariant**, whatever the other calls do. -/
theorem valueInv_step (h : ValueInv s) {a : Action ι α} (hstep : s.step a = some t) :
    ValueInv t := by
  cases a with
  | push i newNode value =>
    simp only [step] at hstep
    split_ifs at hstep with hcond
    obtain rfl := Option.some.inj hstep
    have hfresh := Option.isNone_iff_eq_none.mp hcond.2.2
    refine h.move rfl ?_ ?_ ?_ (Option.some_ne_none none).symm
    · intro x hx
      rcases vacant_update hx with hvac | ⟨_, n, hn, hdata⟩
      · exact hvac
      · obtain rfl := Option.some.inj hn
        cases hdata
    · apply h.not_vacant_next_update
      rintro n ⟨⟩
      exact h.null
    · intro x hx
      obtain rfl := List.mem_singleton.mp hx
      rintro ⟨node, hnode, _⟩
      rw [hfresh] at hnode
      cases hnode
  | pop i =>
    simp only [step] at hstep
    split_ifs at hstep
    obtain rfl := Option.some.inj hstep
    exact h.leave rfl rfl rfl rfl
  | advance i spurious => exact valueInv_advance h hstep

/-- **A pop never returns what a null pointer designates**, in any run. -/
theorem taken_of_reaches {dummy : ℕ} (hdummy : dummy ≠ 0)
    (h : Reaches step (fun _ _ => True) (create dummy) s) (i : ι) :
    (s.threads i).taken ≠ some none := by
  exact (h.invariant (fun _ _ _ hinv _ hstep => valueInv_step hinv hstep)
    (valueInv_create hdummy)).taken i

end Values

end NetSentry.LockFreeQueue
