import Mathlib.Algebra.BigOperators.Fin
import Mathlib.Algebra.Order.BigOperators.Group.Finset
import NetSentry.Core.Equiv.ThreadPool
import NetSentry.Lib.Progress

/-!
# Progress of the thread pool

The pool's own steps are those of its workers, of `notify_one` and of a destructor that has begun; a
call of `enqueue`, a wakeup without a notification and the beginning of the destructor come from
outside.

* `own_steps_le`: in every run the pool takes at most five steps of its own for each `enqueue` and
  one for each wakeup without a notification, besides a number that depends on the workers alone.
* `drains`: left alone, a pool with workers comes to a halt from every state that it can be in, and
  then every accepted task has been run once and a destructor that had begun has returned.

`Alert` is why no wakeup is lost: while there are tasks, a worker is up or a notification is to
come.
-/

namespace NetSentry.ThreadPool

open Transition

variable {α : Type*} {numThreads : ℕ} {s t : ThreadPool α numThreads}

/-- The step is one of the pool's own. -/
def Action.isOwn : Action α numThreads → Bool
  | .enqueue _ | .wakeup _ | .setStop => false
  | _ => true

def Action.isEnqueue : Action α numThreads → Bool
  | .enqueue _ => true
  | _ => false

def Action.isWakeup : Action α numThreads → Bool
  | .wakeup _ => true
  | _ => false

/-! ### The potential -/

/-- The steps that a worker takes before it waits, when it gets no other task. -/
def Worker.potential : Worker α → ℕ
  | .ready => 1
  | .waiting => 0
  | .holding _ => 3
  | .running _ => 2
  | .exited => 0

@[simp] theorem potential_ready : (Worker.ready : Worker α).potential = 1 := rfl

@[simp] theorem potential_waiting : (Worker.waiting : Worker α).potential = 0 := rfl

@[simp] theorem potential_holding (task : α) : (Worker.holding task).potential = 3 := rfl

@[simp] theorem potential_running (task : α) : (Worker.running task).potential = 2 := rfl

@[simp] theorem potential_exited : (Worker.exited : Worker α).potential = 0 := rfl

/-- The steps that the destructor takes, with one more of each worker that it wakes up. -/
def Destructor.potential (numThreads : ℕ) : Destructor → ℕ
  | .notBegun => 2 * numThreads + 2
  | .stopped => 2 * numThreads + 2
  | .joining k => numThreads - k + 1
  | .returned => 0

/-- A bound for the steps that the pool takes when it is left alone. -/
def potential (s : ThreadPool α numThreads) : ℕ :=
  3 * s.tasks.length + 2 * s.notifying + ∑ i, (s.workers i).potential +
    s.destructor.potential numThreads

theorem potential_of_isWaiting {worker : Worker α} (h : worker.isWaiting) :
    worker.potential = 0 := by
  cases worker with
  | waiting => rfl
  | _ => cases h

theorem sum_potential_wake (workers : Fin numThreads → Worker α) :
    ∑ j, (workers j).wake.potential ≤ (∑ j, (workers j).potential) + numThreads := by
  have hone : ∀ worker : Worker α, worker.wake.potential ≤ worker.potential + 1 := by
    intro worker
    cases worker <;> simp [Worker.wake, Worker.potential]
  calc ∑ j, (workers j).wake.potential
      ≤ ∑ j, ((workers j).potential + 1) := Finset.sum_le_sum fun j _ => hone (workers j)
    _ = (∑ j, (workers j).potential) + numThreads := by
      rw [Finset.sum_add_distrib, Finset.sum_const, Finset.card_univ, Fintype.card_fin, smul_eq_mul,
        Nat.mul_one]

/-- What an action takes out of the potential. -/
def Action.cost (a : Action α numThreads) : ℕ := if a.isOwn then 1 else 0

/-- What an action brings. -/
def Action.budget (a : Action α numThreads) : ℕ :=
  (if a.isEnqueue then 5 else 0) + if a.isWakeup then 1 else 0

/-- **A worker goes on**, and the rest of the pool stays as it is. -/
theorem potential_setWorker (s : ThreadPool α numThreads) (i : Fin numThreads) (worker : Worker α) :
    (s.setWorker i worker).potential + (s.workers i).potential
      = s.potential + worker.potential := by
  have hsum := sum_update_add Worker.potential s.workers i worker
  simp only [potential, setWorker]
  omega

/-- The critical section of a worker. -/
theorem potential_lock {i : Fin numThreads} (hready : s.workers i = .ready) :
    (s.lock i).potential + 1 ≤ s.potential := by
  rcases lock_cases s i with hlock | ⟨_, _, hlock⟩ | ⟨task, tasks, htasks, hlock⟩
  · have hset := potential_setWorker s i .waiting
    rw [hready] at hset
    rw [hlock]
    simp only [potential_ready, potential_waiting] at hset
    omega
  · have hset := potential_setWorker s i .exited
    rw [hready] at hset
    rw [hlock]
    simp only [potential_ready, potential_exited] at hset
    omega
  · have hsum := sum_update_add Worker.potential s.workers i (.holding task)
    rw [hready] at hsum
    rw [hlock]
    simp only [potential_ready, potential_holding] at hsum
    simp only [potential, setWorker, htasks, List.length_cons]
    omega

/-- **Every step pays for itself.** -/
theorem potential_step {a : Action α numThreads} (h : step s a = some t) :
    t.potential + a.cost ≤ s.potential + a.budget := by
  cases a with
  | enqueue task =>
    obtain rfl := Option.some.inj h
    show (s.enqueue task).potential + 0 ≤ s.potential + 5
    unfold enqueue
    split_ifs
    · omega
    -- the task will be taken, called and finished, and a notification is owed
    · simp only [potential, List.length_append, List.length_singleton]
      omega
  | notifyOne woken =>
    cases woken with
    | some i =>
      simp only [step] at h
      split_ifs at h with hcond
      obtain rfl := Option.some.inj h
      have hsum := sum_update_add Worker.potential s.workers i .ready
      rw [potential_of_isWaiting hcond.2, potential_ready] at hsum
      show potential _ + 1 ≤ s.potential + 0
      simp only [potential, setWorker]
      omega
    | none =>
      simp only [step] at h
      split_ifs at h with hcond
      obtain rfl := Option.some.inj h
      show potential _ + 1 ≤ s.potential + 0
      simp only [potential]
      omega
  | wakeup i =>
    simp only [step] at h
    split_ifs at h
    obtain rfl := Option.some.inj h
    have hset := potential_setWorker s i .ready
    rw [potential_ready] at hset
    show potential _ + 0 ≤ s.potential + 1
    omega
  | lock i =>
    simp only [step] at h
    split at h
    · next hready =>
      obtain rfl := Option.some.inj h
      exact potential_lock hready
    · cases h
  | call i =>
    simp only [step] at h
    split at h
    · next task hworker =>
      obtain rfl := Option.some.inj h
      have hsum := sum_update_add Worker.potential s.workers i (.running task)
      rw [hworker] at hsum
      simp only [potential_holding, potential_running] at hsum
      show potential _ + 1 ≤ s.potential + 0
      simp only [potential, setWorker]
      omega
    · cases h
  | finish i =>
    simp only [step] at h
    split at h
    · next task hworker =>
      obtain rfl := Option.some.inj h
      have hsum := sum_update_add Worker.potential s.workers i .ready
      rw [hworker] at hsum
      simp only [potential_ready, potential_running] at hsum
      show potential _ + 1 ≤ s.potential + 0
      simp only [potential, setWorker]
      omega
    · cases h
  | setStop =>
    simp only [step] at h
    split at h
    · next hdestructor =>
      obtain rfl := Option.some.inj h
      show potential _ + 0 ≤ s.potential + 0
      simp only [potential, hdestructor, Destructor.potential]
      omega
    · cases h
  | notifyAll =>
    simp only [step] at h
    split at h
    · next hdestructor =>
      obtain rfl := Option.some.inj h
      -- what the destructor has in store pays for the workers that it wakes up
      have hsum := sum_potential_wake s.workers
      show potential _ + 1 ≤ s.potential + 0
      simp only [potential, hdestructor, Destructor.potential]
      omega
    · cases h
  | join =>
    simp only [step] at h
    split at h
    · next k hdestructor =>
      split_ifs at h with hk
      · split at h
        · obtain rfl := Option.some.inj h
          show potential _ + 1 ≤ s.potential + 0
          simp only [potential, hdestructor, Destructor.potential]
          omega
        · cases h
      · obtain rfl := Option.some.inj h
        show potential _ + 1 ≤ s.potential + 0
        simp only [potential, hdestructor, Destructor.potential]
        omega
    · cases h

/-! ### Wakeups -/

/-- `notify_all` is behind the destructor. -/
def Destructor.hasNotified : Destructor → Bool
  | .notBegun | .stopped => false
  | .joining _ | .returned => true

/-- No wakeup is lost. -/
structure Alert (s : ThreadPool α numThreads) : Prop where
  tasks : s.tasks ≠ [] → (∀ i, (s.workers i).isWaiting = true) → s.notifying ≠ 0
  stop : s.destructor ≠ .notBegun → s.stop = true
  notified : s.destructor.hasNotified = true → ∀ i, (s.workers i).isWaiting = false

theorem alert_create : Alert (create α numThreads) :=
  ⟨fun h => absurd rfl h, fun h => absurd rfl h, fun h => nomatch h⟩

/-- **A worker goes on** and is up. -/
theorem Alert.setWorker (h : Alert s) {i : Fin numThreads} {worker : Worker α}
    (hworkers : t.workers = Function.update s.workers i worker) (hup : worker.isWaiting = false)
    (hstop : t.stop = s.stop) (hdestructor : t.destructor = s.destructor) : Alert t where
  tasks := by
    intro _ hwaiting
    have hi := hwaiting i
    rw [hworkers, Function.update_self, hup] at hi
    cases hi
  stop := by
    rw [hstop, hdestructor]
    exact h.stop
  notified := by
    rw [hdestructor, hworkers]
    intro hnotified
    apply (Function.forall_update_iff s.workers fun _ worker => worker.isWaiting = false).mpr
    exact ⟨hup, fun j _ => h.notified hnotified j⟩

theorem Alert.lock (h : Alert s) {i : Fin numThreads} : Alert (s.lock i) := by
  rcases hstop : s.stop with _ | _
  · cases htasks : s.tasks with
    | nil =>
      -- the worker waits, and there is nothing for it to do
      have hlock : s.lock i = s.setWorker i .waiting := by
        unfold ThreadPool.lock
        rw [hstop, htasks]
      have hnotBegun : s.destructor = .notBegun := by
        by_contra hbegun
        rw [h.stop hbegun] at hstop
        cases hstop
      rw [hlock]
      refine ⟨fun hne => absurd htasks hne, h.stop, ?_⟩
      intro hnotified
      change s.destructor.hasNotified = true at hnotified
      rw [hnotBegun] at hnotified
      cases hnotified
    | cons task tasks =>
      unfold ThreadPool.lock
      rw [hstop, htasks]
      exact h.setWorker rfl rfl rfl rfl
  · cases htasks : s.tasks with
    | nil =>
      unfold ThreadPool.lock
      rw [hstop, htasks]
      exact h.setWorker rfl rfl rfl rfl
    | cons task tasks =>
      unfold ThreadPool.lock
      rw [hstop, htasks]
      exact h.setWorker rfl rfl rfl rfl

/-- **One step loses no wakeup.** -/
theorem alert_step (hpos : 0 < numThreads) {a : Action α numThreads} (h : Alert s)
    (hstep : step s a = some t) : Alert t := by
  cases a with
  | enqueue task =>
    obtain rfl := Option.some.inj hstep
    show Alert (s.enqueue task)
    unfold enqueue
    split_ifs
    · exact h
    · exact ⟨fun _ _ => Nat.succ_ne_zero _, h.stop, h.notified⟩
  | notifyOne woken =>
    cases woken with
    | some i =>
      simp only [step] at hstep
      split_ifs at hstep
      obtain rfl := Option.some.inj hstep
      exact h.setWorker rfl rfl rfl rfl
    | none =>
      simp only [step] at hstep
      split_ifs at hstep with hcond
      obtain rfl := Option.some.inj hstep
      refine ⟨?_, h.stop, h.notified⟩
      -- somebody is up
      intro _ hwaiting
      have hup := hcond.2 ⟨0, hpos⟩
      rw [show (s.workers ⟨0, hpos⟩).isWaiting = true from hwaiting ⟨0, hpos⟩] at hup
      cases hup
  | wakeup i =>
    simp only [step] at hstep
    split_ifs at hstep
    obtain rfl := Option.some.inj hstep
    exact h.setWorker rfl rfl rfl rfl
  | lock i =>
    simp only [step] at hstep
    split at hstep
    · obtain rfl := Option.some.inj hstep
      exact h.lock
    · cases hstep
  | call i =>
    simp only [step] at hstep
    split at hstep
    · obtain rfl := Option.some.inj hstep
      exact h.setWorker rfl rfl rfl rfl
    · cases hstep
  | finish i =>
    simp only [step] at hstep
    split at hstep
    · obtain rfl := Option.some.inj hstep
      exact h.setWorker rfl rfl rfl rfl
    · cases hstep
  | setStop =>
    simp only [step] at hstep
    split at hstep
    · obtain rfl := Option.some.inj hstep
      exact ⟨h.tasks, fun _ => rfl, fun hnotified => Bool.noConfusion hnotified⟩
    · cases hstep
  | notifyAll =>
    simp only [step] at hstep
    split at hstep
    · next hdestructor =>
      obtain rfl := Option.some.inj hstep
      have hup : ∀ i, (s.workers i).wake.isWaiting = false := by
        intro i
        cases s.workers i <;> rfl
      refine ⟨?_, fun _ => h.stop (by rw [hdestructor]; exact Destructor.noConfusion),
        fun _ => hup⟩
      intro _ hwaiting
      have hzero := hwaiting ⟨0, hpos⟩
      rw [hup] at hzero
      cases hzero
    · cases hstep
  | join =>
    simp only [step] at hstep
    split at hstep
    · next k hdestructor =>
      have hstop := h.stop (by rw [hdestructor]; exact Destructor.noConfusion)
      have hnotified := h.notified (by rw [hdestructor]; rfl)
      split_ifs at hstep
      · split at hstep
        · obtain rfl := Option.some.inj hstep
          exact ⟨h.tasks, fun _ => hstop, fun _ => hnotified⟩
        · cases hstep
      · obtain rfl := Option.some.inj hstep
        exact ⟨h.tasks, fun _ => hstop, fun _ => hnotified⟩
    · cases hstep

theorem Reachable.step {a : Action α numThreads} (h : Reachable s) (hstep : step s a = some t) :
    Reachable t :=
  Relation.ReflTransGen.tail h ⟨a, trivial, hstep⟩

theorem Reachable.alert (hpos : 0 < numThreads) (h : Reachable s) : Alert s :=
  h.invariant (fun _ _ _ halert _ hstep => alert_step hpos halert hstep) alert_create

/-! ### Halting -/

/-- The pool is left alone. -/
def Alone (_ : ThreadPool α numThreads) (a : Action α numThreads) : Prop := a.isOwn = true

instance (s : ThreadPool α numThreads) (a : Action α numThreads) : Decidable (Alone s a) :=
  inferInstanceAs (Decidable (_ = _))

/-- A worker that can take no step waits or has exited. -/
theorem idle_of_halted (h : Halted step Alone s) (i : Fin numThreads) :
    (s.workers i).isWaiting = true ∨ s.workers i = .exited := by
  have hlock := h (.lock i) rfl
  have hcall := h (.call i) rfl
  have hfinish := h (.finish i) rfl
  simp only [step] at hlock hcall hfinish
  cases hworker : s.workers i with
  | ready => simp [hworker] at hlock
  | waiting => exact .inl rfl
  | holding task => simp [hworker] at hcall
  | running task => simp [hworker] at hfinish
  | exited => exact .inr rfl

/-- No notification is to come. -/
theorem notifying_of_halted (h : Halted step Alone s) : s.notifying = 0 := by
  by_contra hne
  by_cases hwaiting : ∃ i, (s.workers i).isWaiting = true
  · obtain ⟨i, hi⟩ := hwaiting
    have hnone := h (.notifyOne (some i)) rfl
    simp [step, hne, hi] at hnone
  · have hup : ∀ i, (s.workers i).isWaiting = false := by
      intro i
      exact Bool.eq_false_iff.mpr fun hi => hwaiting ⟨i, hi⟩
    have hnone := h (.notifyOne none) rfl
    simp [step, hne, hup] at hnone

/-- **A pool that has come to a halt** has nothing left to do. -/
theorem done_of_halted (hpos : 0 < numThreads) (hreachable : Reachable s)
    (h : Halted step Alone s) :
    s.tasks = [] ∧ (s.finished.map (·.2)).Perm s.accepted ∧
      (s.destructor = .notBegun ∨ s.destructor = .returned) := by
  have hinv := hreachable.inv
  have halert := hreachable.alert hpos
  have hidle := idle_of_halted h
  have htasks : s.tasks = [] := by
    by_contra hne
    apply halert.tasks hne _ (notifying_of_halted h)
    intro i
    exact (hidle i).resolve_right fun hexited => hne (hinv.exited i hexited).2
  refine ⟨htasks, ?_, ?_⟩
  · have hnone : ∀ i, (s.workers i).held = [] ∧ (s.workers i).current = [] := by
      intro i
      rcases hidle i with hwaiting | hexited
      · exact held_of_isWaiting hwaiting
      · rw [hexited]
        exact ⟨rfl, rfl⟩
    have hperm : s.finished.Perm s.taken := by
      refine KeyedFold.perm_of_valuesOf fun i => ?_
      show tasksOf i s.finished = tasksOf i s.taken
      rw [(hinv.balanced i).taken_eq, (hinv.balanced i).started_eq, (hnone i).1, (hnone i).2,
        List.append_nil, List.append_nil]
    rw [hinv.accepted_eq, htasks, List.append_nil]
    exact hperm.map _
  · cases hdestructor : s.destructor with
    | notBegun => exact .inl rfl
    | returned => exact .inr rfl
    | stopped =>
      have hnone := h .notifyAll rfl
      simp [step, hdestructor] at hnone
    | joining k =>
      have hnone := h .join rfl
      by_cases hk : k < numThreads
      · -- the worker to be joined has been woken up
        have hexited := (hidle ⟨k, hk⟩).resolve_left
          (Bool.eq_false_iff.mp (halert.notified (by rw [hdestructor]; rfl) ⟨k, hk⟩))
        simp [step, hdestructor, hk, hexited] at hnone
      · simp [step, hdestructor, hk] at hnone

/-! ### Runs that come to a halt -/

/-- Left alone, the pool accepts nothing and destroys nothing. -/
theorem alone_step {a : Action α numThreads} (ha : Alone s a) (h : step s a = some t) :
    t.accepted = s.accepted ∧ (s.destructor ≠ .notBegun → t.destructor ≠ .notBegun) := by
  cases a with
  | enqueue task => cases ha
  | wakeup i => cases ha
  | setStop => cases ha
  | lock i =>
    simp only [step] at h
    split at h
    · obtain rfl := Option.some.inj h
      rcases lock_cases s i with hlock | ⟨_, _, hlock⟩ | ⟨_, _, _, hlock⟩
      · exact hlock ▸ ⟨rfl, id⟩
      · exact hlock ▸ ⟨rfl, id⟩
      · exact hlock ▸ ⟨rfl, id⟩
    · cases h
  | notifyOne woken =>
    cases woken <;> simp only [step] at h <;> split_ifs at h <;> obtain rfl := Option.some.inj h <;>
      exact ⟨rfl, id⟩
  | call i =>
    simp only [step] at h
    split at h
    · obtain rfl := Option.some.inj h
      exact ⟨rfl, id⟩
    · cases h
  | finish i =>
    simp only [step] at h
    split at h
    · obtain rfl := Option.some.inj h
      exact ⟨rfl, id⟩
    · cases h
  | notifyAll =>
    simp only [step] at h
    split at h
    · obtain rfl := Option.some.inj h
      exact ⟨rfl, fun _ => Destructor.noConfusion⟩
    · cases h
  | join =>
    simp only [step] at h
    split at h
    · split_ifs at h
      · split at h
        · obtain rfl := Option.some.inj h
          exact ⟨rfl, fun _ => Destructor.noConfusion⟩
        · cases h
      · obtain rfl := Option.some.inj h
        exact ⟨rfl, fun _ => Destructor.noConfusion⟩
    · cases h

/-- **Left alone, a pool with workers drains its queue.**  From every state that it can be in it can
come to a halt; every run of steps of its own is at most as long as the potential says; and where it
has come to a halt, each task that had been accepted has been run once, and the destructor has
returned if it had begun. -/
theorem drains (hpos : 0 < numThreads) (h : Reachable s) :
    (∃ as t, Path step Alone s as t ∧ Halted step Alone t) ∧
    ∀ as t, Path step Alone s as t → as.length ≤ s.potential ∧
      (Halted step Alone t → t.tasks = [] ∧ (t.finished.map (·.2)).Perm s.accepted ∧
        (s.destructor ≠ .notBegun → t.destructor = .returned)) := by
  have hreachable : ∀ (s : ThreadPool α numThreads) a t, Reachable s → Alone s a →
      step s a = some t → Reachable t := fun _ _ _ hs _ hstep => hs.step hstep
  have hpay : ∀ (s : ThreadPool α numThreads) a t, Reachable s → Alone s a → step s a = some t →
      t.potential + 1 ≤ s.potential + 0 := by
    intro s a t _ ha hstep
    have hpotential := potential_step hstep
    cases a with
    | enqueue task => cases ha
    | wakeup i => cases ha
    | setStop => cases ha
    | _ => exact hpotential
  constructor
  · obtain ⟨as, t, hpath, hhalted, _⟩ := exists_halted hreachable hpay h
    exact ⟨as, t, hpath, hhalted⟩
  · intro as t hpath
    constructor
    · have hcost := hpath.cost_le hreachable hpay h
      simp only [List.map_const', List.sum_replicate, smul_eq_mul, Nat.mul_one, Nat.mul_zero]
        at hcost
      omega
    · intro hhalted
      have hkeep : ∀ (u : ThreadPool α numThreads) a v,
          (u.accepted = s.accepted ∧ (s.destructor ≠ .notBegun → u.destructor ≠ .notBegun)) →
          Alone u a → step u a = some v →
          v.accepted = s.accepted ∧ (s.destructor ≠ .notBegun → v.destructor ≠ .notBegun) := by
        rintro u a v ⟨haccepted, hbegun⟩ ha hstep
        obtain ⟨haccepted', hbegun'⟩ := alone_step ha hstep
        exact ⟨haccepted'.trans haccepted, fun hs => hbegun' (hbegun hs)⟩
      -- so that the tasks that have been run are those that had been accepted at the beginning
      obtain ⟨haccepted, hbegun⟩ := hpath.reaches.invariant hkeep ⟨rfl, id⟩
      have ht : Reachable t := hpath.reaches.invariant hreachable h
      obtain ⟨htasks, hfinished, hdestructor⟩ := done_of_halted hpos ht hhalted
      exact ⟨htasks, haccepted ▸ hfinished, fun hs => hdestructor.resolve_left (hbegun hs)⟩

/-- **The work of the pool is bounded by what comes from outside**: in every run it takes at most
five steps of its own for each call of `enqueue`, one for each wakeup without a notification, and
three for each worker and two more. -/
theorem own_steps_le {as : List (Action α numThreads)}
    (h : Path step (fun _ _ => True) (create α numThreads) as t) :
    as.countP Action.isOwn
      ≤ 3 * numThreads + 2 + 5 * as.countP Action.isEnqueue + as.countP Action.isWakeup := by
  have hcost := h.cost_le (fun _ _ _ (hs : Reachable _) _ hstep => hs.step hstep)
    (fun _ _ _ _ _ hstep => potential_step hstep) (Reaches.refl _)
  have hstart : (create α numThreads).potential = 3 * numThreads + 2 := by
    simp [potential, create, Destructor.potential]
    omega
  have hcount : (as.map Action.cost).sum = as.countP Action.isOwn ∧
      (as.map Action.budget).sum = 5 * as.countP Action.isEnqueue + as.countP Action.isWakeup := by
    clear h hcost
    induction as with
    | nil => exact ⟨rfl, rfl⟩
    | cons a as ih =>
      rw [List.map_cons, List.map_cons, List.sum_cons, List.sum_cons, ih.1, ih.2,
        List.countP_cons, List.countP_cons, List.countP_cons]
      cases a <;> simp [Action.cost, Action.budget, Action.isOwn, Action.isEnqueue,
        Action.isWakeup] <;> omega
  rw [hcount.1, hcount.2, hstart] at hcost
  omega

theorem own_steps_le_oneWorker :
    oneWorker.countP Action.isOwn
      ≤ 3 * 1 + 2 + 5 * oneWorker.countP Action.isEnqueue + oneWorker.countP Action.isWakeup := by
  obtain ⟨s, hs⟩ : ∃ s, run step (fun _ _ => True) (create ℕ 1) oneWorker = some s := ⟨_, rfl⟩
  exact own_steps_le (path_of_run hs)

/-- A worker waits, a task is accepted, and the destructor begins. -/
def stoppedWithTask : List (Action ℕ 1) := [.lock worker, .enqueue 7, .setStop]

theorem drains_stoppedWithTask :
    ∃ s, run step (fun _ _ => True) (create ℕ 1) stoppedWithTask = some s ∧
      ∃ as t, Path step Alone s as t ∧ t.tasks = [] ∧ (t.finished.map (·.2)).Perm [7] ∧
        t.destructor = .returned := by
  obtain ⟨s, hs, haccepted, hdestructor⟩ : ∃ s,
      run step (fun _ _ => True) (create ℕ 1) stoppedWithTask = some s ∧ s.accepted = [7] ∧
        s.destructor = .stopped := ⟨_, rfl, rfl, rfl⟩
  obtain ⟨⟨as, t, hpath, hhalted⟩, hruns⟩ := drains Nat.one_pos (reaches_of_run hs)
  obtain ⟨htasks, hfinished, hreturned⟩ := (hruns as t hpath).2 hhalted
  rw [haccepted] at hfinished
  exact ⟨s, hs, as, t, hpath, htasks, hfinished,
    hreturned (by rw [hdestructor]; exact Destructor.noConfusion)⟩

end NetSentry.ThreadPool
