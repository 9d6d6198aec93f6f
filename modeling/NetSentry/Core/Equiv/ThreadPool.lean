import NetSentry.Core.ThreadPool
import NetSentry.Lib.KeyedFold
import NetSentry.Lib.Transition

/-!
# Tasks of the thread pool

* `tasks_exactly_once`: in every state of every run the accepted tasks are those taken, in their
  order, and then those still queued; every worker has called what it has taken, task by task, but
  for the one in its hands; nothing is accepted once the pool is stopped, and a worker leaves its
  loop only when the pool is stopped and the queue is empty.
* `destroyed_drained_iff`: when the destructor has returned all accepted tasks have been run exactly
  when the pool has a worker, or none was accepted.

`Stepped` says what a step can do, and `Inv` is what every step keeps; `inv_step`, `accepted_step`
and `exited_step` have one case each for what can happen.
-/

namespace NetSentry.ThreadPool

open Transition

variable {α : Type*} {numThreads : ℕ} {s t : ThreadPool α numThreads}

/-! ### The history of one worker -/

@[simp] theorem tasksOf_nil (i : Fin numThreads) :
    tasksOf i ([] : List (Fin numThreads × α)) = [] :=
  rfl

theorem tasksOf_append_self (i : Fin numThreads) (history : List (Fin numThreads × α)) (task : α) :
    tasksOf i (history ++ [(i, task)]) = tasksOf i history ++ [task] := by
  simp [tasksOf]

theorem tasksOf_append_of_ne {i j : Fin numThreads} (hne : j ≠ i)
    (history : List (Fin numThreads × α)) (task : α) :
    tasksOf j (history ++ [(i, task)]) = tasksOf j history := by
  simp [tasksOf, hne.symm]

@[simp] theorem held_wake (worker : Worker α) : worker.wake.held = worker.held := by
  cases worker <;> rfl

@[simp] theorem current_wake (worker : Worker α) : worker.wake.current = worker.current := by
  cases worker <;> rfl

theorem wake_eq_exited {worker : Worker α} : worker.wake = .exited ↔ worker = .exited := by
  cases worker <;> simp [Worker.wake]

theorem held_of_isWaiting {worker : Worker α} (h : worker.isWaiting) :
    worker.held = [] ∧ worker.current = [] := by
  cases worker with
  | waiting => exact ⟨rfl, rfl⟩
  | _ => cases h

/-! ### The invariant -/

/-- What a worker has taken it has called, and what it has called has returned, but for the task in
its hands. -/
structure Balanced (i : Fin numThreads) (worker : Worker α)
    (taken started finished : List (Fin numThreads × α)) : Prop where
  taken_eq : tasksOf i taken = tasksOf i started ++ worker.held
  started_eq : tasksOf i started = tasksOf i finished ++ worker.current

/-- How far the destructor can be. -/
def Joined (workers : Fin numThreads → Worker α) : Destructor → Prop
  | .notBegun | .stopped => True
  | .joining k => ∀ i : Fin numThreads, i.val < k → workers i = .exited
  | .returned => ∀ i, workers i = .exited

/-- What holds in every state of every run. -/
structure Inv (s : ThreadPool α numThreads) : Prop where
  accepted_eq : s.accepted = s.taken.map (·.2) ++ s.tasks
  balanced : ∀ i, Balanced i (s.workers i) s.taken s.started s.finished
  exited : ∀ i, s.workers i = .exited → s.stop = true ∧ s.tasks = []
  joined : Joined s.workers s.destructor

theorem inv_create : Inv (create α numThreads) where
  accepted_eq := rfl
  balanced := fun _ => ⟨rfl, rfl⟩
  exited := fun _ h => nomatch h
  joined := trivial

/-- A worker that has exited stays joined. -/
theorem Joined.update {workers : Fin numThreads → Worker α} {destructor : Destructor}
    (h : Joined workers destructor) {i : Fin numThreads} {worker : Worker α}
    (hi : workers i = .exited → worker = .exited) :
    Joined (Function.update workers i worker) destructor := by
  have hkeep : ∀ j, workers j = .exited → Function.update workers i worker j = .exited := by
    intro j hj
    by_cases hji : j = i
    · subst hji
      rw [Function.update_self]
      exact hi hj
    · rwa [Function.update_of_ne hji]
  cases destructor with
  | notBegun => trivial
  | stopped => trivial
  | joining k =>
    intro j hj
    exact hkeep j (h j hj)
  | returned =>
    intro j
    exact hkeep j (h j)

theorem exited_update {workers : Fin numThreads → Worker α} {i : Fin numThreads}
    {worker : Worker α} {P : Prop} (h : ∀ j, workers j = .exited → P) (hi : worker = .exited → P) :
    ∀ j, Function.update workers i worker j = .exited → P := by
  apply (Function.forall_update_iff workers fun _ worker => worker = .exited → P).mpr
  exact ⟨hi, fun j _ => h j⟩

/-- **One worker goes on**: the invariant holds again when its own histories are balanced and those
of the other workers are as before. -/
theorem Inv.update (hinv : Inv s) {i : Fin numThreads} {worker : Worker α}
    (hworkers : t.workers = Function.update s.workers i worker)
    (hdestructor : t.destructor = s.destructor) (hstays : s.workers i ≠ .exited)
    (haccepted : t.accepted = t.taken.map (·.2) ++ t.tasks)
    (hbalanced : Balanced i worker t.taken t.started t.finished)
    (hothers : ∀ j, j ≠ i → tasksOf j t.taken = tasksOf j s.taken ∧
      tasksOf j t.started = tasksOf j s.started ∧ tasksOf j t.finished = tasksOf j s.finished)
    (hexited : ∀ j, t.workers j = .exited → t.stop = true ∧ t.tasks = []) : Inv t where
  accepted_eq := haccepted
  balanced := by
    rw [hworkers]
    apply (Function.forall_update_iff s.workers
      fun j worker => Balanced j worker t.taken t.started t.finished).mpr
    refine ⟨hbalanced, ?_⟩
    intro j hji
    obtain ⟨htaken, hstarted, hfinished⟩ := hothers j hji
    obtain ⟨htakenEq, hstartedEq⟩ := hinv.balanced j
    exact ⟨by rw [htaken, hstarted, htakenEq], by rw [hstarted, hfinished, hstartedEq]⟩
  exited := hexited
  joined := by
    rw [hworkers, hdestructor]
    exact hinv.joined.update fun h => absurd h hstays

/-- A worker without a task goes on without one. -/
theorem Inv.setWorker (hinv : Inv s) {i : Fin numThreads} {worker : Worker α}
    (hold : (s.workers i).held = [] ∧ (s.workers i).current = [])
    (hnew : worker.held = [] ∧ worker.current = [])
    (hexited : worker = .exited → s.stop = true ∧ s.tasks = [])
    (hstays : s.workers i ≠ .exited) : Inv (s.setWorker i worker) := by
  obtain ⟨htaken, hstarted⟩ := hinv.balanced i
  rw [hold.1, ← hnew.1] at htaken
  rw [hold.2, ← hnew.2] at hstarted
  exact hinv.update rfl rfl hstays hinv.accepted_eq ⟨htaken, hstarted⟩
    (fun j _ => ⟨rfl, rfl, rfl⟩) (exited_update hinv.exited hexited)

/-! ### Steps -/

/-- What the critical section of a worker can do. -/
theorem lock_cases (s : ThreadPool α numThreads) (i : Fin numThreads) :
    (s.lock i = s.setWorker i .waiting) ∨
    (s.stop = true ∧ s.tasks = [] ∧ s.lock i = s.setWorker i .exited) ∨
    ∃ task tasks, s.tasks = task :: tasks ∧ s.lock i =
      { s.setWorker i (.holding task) with tasks := tasks, taken := s.taken ++ [(i, task)] } := by
  unfold lock
  cases htasks : s.tasks with
  | nil =>
    cases hstop : s.stop with
    | false => exact .inl rfl
    | true => exact .inr (.inl ⟨rfl, rfl, rfl⟩)
  | cons task tasks => exact .inr (.inr ⟨task, tasks, rfl, by cases s.stop <;> rfl⟩)

/-- What a step can do. -/
inductive Stepped (s : ThreadPool α numThreads) : ThreadPool α numThreads → Prop
  | enqueue (task : α) : Stepped s (s.enqueue task)
  /-- A worker is woken up, by a notification or without one. -/
  | woken (i : Fin numThreads) (notifying : ℕ) (hwaiting : (s.workers i).isWaiting) :
    Stepped s { s.setWorker i .ready with notifying := notifying }
  /-- Nobody waits for a notification. -/
  | missed (notifying : ℕ) : Stepped s { s with notifying := notifying }
  | lock (i : Fin numThreads) (hready : s.workers i = .ready) : Stepped s (s.lock i)
  | call (i : Fin numThreads) (task : α) (hworker : s.workers i = .holding task) :
    Stepped s { s.setWorker i (.running task) with started := s.started ++ [(i, task)] }
  | finish (i : Fin numThreads) (task : α) (hworker : s.workers i = .running task) :
    Stepped s { s.setWorker i .ready with finished := s.finished ++ [(i, task)] }
  | setStop (hdestructor : s.destructor = .notBegun) :
    Stepped s { s with stop := true, destructor := .stopped }
  | notifyAll (hdestructor : s.destructor = .stopped) :
    Stepped s { s with workers := fun i => (s.workers i).wake, destructor := .joining 0 }
  | join (k : ℕ) (hdestructor : s.destructor = .joining k) (hk : k < numThreads)
    (hworker : s.workers ⟨k, hk⟩ = .exited) : Stepped s { s with destructor := .joining (k + 1) }
  | destroyed (k : ℕ) (hdestructor : s.destructor = .joining k) (hk : numThreads ≤ k) :
    Stepped s { s with destructor := .returned }

/-- **What a step does.** -/
theorem stepped_of_step {a : Action α numThreads} (h : step s a = some t) : Stepped s t := by
  cases a with
  | enqueue task =>
    obtain rfl := Option.some.inj h
    exact .enqueue task
  | notifyOne woken =>
    cases woken with
    | some i =>
      simp only [step] at h
      split_ifs at h with hcond
      obtain rfl := Option.some.inj h
      exact .woken i _ hcond.2
    | none =>
      simp only [step] at h
      split_ifs at h
      obtain rfl := Option.some.inj h
      exact .missed _
  | wakeup i =>
    simp only [step] at h
    split_ifs at h with hwaiting
    obtain rfl := Option.some.inj h
    exact .woken i s.notifying hwaiting
  | lock i =>
    simp only [step] at h
    split at h
    · next hready =>
      obtain rfl := Option.some.inj h
      exact .lock i hready
    · cases h
  | call i =>
    simp only [step] at h
    split at h
    · next task hworker =>
      obtain rfl := Option.some.inj h
      exact .call i task hworker
    · cases h
  | finish i =>
    simp only [step] at h
    split at h
    · next task hworker =>
      obtain rfl := Option.some.inj h
      exact .finish i task hworker
    · cases h
  | setStop =>
    simp only [step] at h
    split at h
    · next hdestructor =>
      obtain rfl := Option.some.inj h
      exact .setStop hdestructor
    · cases h
  | notifyAll =>
    simp only [step] at h
    split at h
    · next hdestructor =>
      obtain rfl := Option.some.inj h
      exact .notifyAll hdestructor
    · cases h
  | join =>
    simp only [step] at h
    split at h
    · next k hdestructor =>
      split_ifs at h with hk
      · split at h
        · next hworker =>
          obtain rfl := Option.some.inj h
          exact .join k hdestructor hk hworker
        · cases h
      · obtain rfl := Option.some.inj h
        exact .destroyed k hdestructor (Nat.le_of_not_lt hk)
    · cases h

theorem Inv.enqueue (hinv : Inv s) (task : α) : Inv (s.enqueue task) := by
  unfold ThreadPool.enqueue
  split_ifs with hstop
  · exact hinv
  · refine { hinv with accepted_eq := ?_, exited := ?_ }
    · show s.accepted ++ [task] = s.taken.map (·.2) ++ (s.tasks ++ [task])
      rw [hinv.accepted_eq, List.append_assoc]
    · intro i hi
      exact absurd (hinv.exited i hi).1 hstop

theorem Inv.lock (hinv : Inv s) {i : Fin numThreads} (hready : s.workers i = .ready) :
    Inv (s.lock i) := by
  have hold : (s.workers i).held = [] ∧ (s.workers i).current = [] := by
    rw [hready]
    exact ⟨rfl, rfl⟩
  have hstays : s.workers i ≠ .exited := by
    rw [hready]
    nofun
  rcases lock_cases s i with hlock | ⟨hstop, hempty, hlock⟩ | ⟨task, tasks, htasks, hlock⟩
  · rw [hlock]
    exact hinv.setWorker hold ⟨rfl, rfl⟩ nofun hstays
  · rw [hlock]
    exact hinv.setWorker hold ⟨rfl, rfl⟩ (fun _ => ⟨hstop, hempty⟩) hstays
  · rw [hlock]
    -- while there are tasks no worker has exited
    have hnone : ∀ j, s.workers j ≠ .exited := by
      intro j hj
      rw [(hinv.exited j hj).2] at htasks
      cases htasks
    obtain ⟨htaken, hstarted⟩ := hinv.balanced i
    rw [hold.1, List.append_nil] at htaken
    rw [hold.2] at hstarted
    refine hinv.update rfl rfl hstays ?_ ⟨?_, hstarted⟩ ?_
      (exited_update (fun j hj => absurd hj (hnone j)) nofun)
    · show s.accepted = (s.taken ++ [(i, task)]).map (·.2) ++ tasks
      rw [hinv.accepted_eq, htasks, List.map_append, List.append_assoc]
      rfl
    · show tasksOf i (s.taken ++ [(i, task)]) = tasksOf i s.started ++ [task]
      rw [tasksOf_append_self, htaken]
    · intro j hji
      exact ⟨tasksOf_append_of_ne hji s.taken task, rfl, rfl⟩

/-- A worker calls the task that it holds. -/
theorem Inv.call (hinv : Inv s) {i : Fin numThreads} {task : α}
    (hworker : s.workers i = .holding task) :
    Inv { s.setWorker i (.running task) with started := s.started ++ [(i, task)] } := by
  obtain ⟨htaken, hstarted⟩ := hinv.balanced i
  rw [hworker] at htaken hstarted
  refine hinv.update rfl rfl (by rw [hworker]; nofun) hinv.accepted_eq ⟨?_, ?_⟩ ?_
    (exited_update hinv.exited nofun)
  · show tasksOf i s.taken = tasksOf i (s.started ++ [(i, task)]) ++ []
    rw [tasksOf_append_self, htaken, List.append_nil]
    rfl
  · show tasksOf i (s.started ++ [(i, task)]) = tasksOf i s.finished ++ [task]
    rw [tasksOf_append_self, hstarted]
    exact congrArg (· ++ [task]) (List.append_nil _)
  · intro j hji
    exact ⟨rfl, tasksOf_append_of_ne hji s.started task, rfl⟩

/-- The call of a task returns. -/
theorem Inv.finish (hinv : Inv s) {i : Fin numThreads} {task : α}
    (hworker : s.workers i = .running task) :
    Inv { s.setWorker i .ready with finished := s.finished ++ [(i, task)] } := by
  obtain ⟨htaken, hstarted⟩ := hinv.balanced i
  rw [hworker] at htaken hstarted
  refine hinv.update rfl rfl (by rw [hworker]; nofun) hinv.accepted_eq ⟨htaken, ?_⟩ ?_
    (exited_update hinv.exited nofun)
  · show tasksOf i s.started = tasksOf i (s.finished ++ [(i, task)]) ++ []
    rw [tasksOf_append_self, hstarted, List.append_nil]
    rfl
  · intro j hji
    exact ⟨rfl, rfl, tasksOf_append_of_ne hji s.finished task⟩

/-- The destructor has waited for one more worker. -/
theorem Inv.join (hinv : Inv s) {k : ℕ} (hdestructor : s.destructor = .joining k)
    (hk : k < numThreads) (hworker : s.workers ⟨k, hk⟩ = .exited) :
    Inv { s with destructor := .joining (k + 1) } := by
  refine { hinv with joined := ?_ }
  have hjoined := hinv.joined
  rw [hdestructor] at hjoined
  intro i hi
  rcases Nat.lt_succ_iff_lt_or_eq.mp hi with hbefore | hthis
  · exact hjoined i hbefore
  · obtain rfl : i = ⟨k, hk⟩ := Fin.ext hthis
    exact hworker

/-- The destructor has waited for all workers. -/
theorem Inv.destroyed (hinv : Inv s) {k : ℕ} (hdestructor : s.destructor = .joining k)
    (hk : numThreads ≤ k) : Inv { s with destructor := .returned } := by
  refine { hinv with joined := ?_ }
  have hjoined := hinv.joined
  rw [hdestructor] at hjoined
  intro i
  exact hjoined i (by omega)

/-- `notify_all` changes no history, and no worker that has exited. -/
theorem Inv.notifyAll (hinv : Inv s) :
    Inv { s with workers := fun i => (s.workers i).wake, destructor := .joining 0 } where
  accepted_eq := hinv.accepted_eq
  balanced := by
    intro i
    obtain ⟨htaken, hstarted⟩ := hinv.balanced i
    exact ⟨by rw [held_wake, htaken], by rw [current_wake, hstarted]⟩
  exited := by
    intro i hi
    exact hinv.exited i (wake_eq_exited.mp hi)
  joined := by
    intro i hi
    exact absurd hi (Nat.not_lt_zero _)

/-- **One step keeps the invariant.** -/
theorem inv_step {a : Action α numThreads} (hinv : Inv s) (h : step s a = some t) : Inv t := by
  cases stepped_of_step h with
  | enqueue task => exact hinv.enqueue task
  | woken i notifying hwaiting =>
    have hstays : s.workers i ≠ .exited := by
      intro hexited
      rw [hexited] at hwaiting
      cases hwaiting
    have hset : Inv (s.setWorker i .ready) :=
      hinv.setWorker (held_of_isWaiting hwaiting) ⟨rfl, rfl⟩ nofun hstays
    exact { hset with }
  | missed notifying => exact { hinv with }
  | lock i hready => exact hinv.lock hready
  | call i task hworker => exact hinv.call hworker
  | finish i task hworker => exact hinv.finish hworker
  | setStop hdestructor =>
    exact { hinv with exited := fun i hi => ⟨rfl, (hinv.exited i hi).2⟩, joined := trivial }
  | notifyAll hdestructor => exact hinv.notifyAll
  | join k hdestructor hk hworker => exact hinv.join hdestructor hk hworker
  | destroyed k hdestructor hk => exact hinv.destroyed hdestructor hk

/-! ### Runs -/

/-- The state is reached in some run of the pool. -/
def Reachable (s : ThreadPool α numThreads) : Prop :=
  Reaches step (fun _ _ => True) (create α numThreads) s

theorem Reachable.inv (h : Reachable s) : Inv s :=
  h.invariant (fun _ _ _ hinv _ hstep => inv_step hinv hstep) inv_create

/-- A stopped pool stays stopped and accepts nothing. -/
theorem accepted_step {a : Action α numThreads} (hstop : s.stop = true) (h : step s a = some t) :
    t.stop = true ∧ t.accepted = s.accepted := by
  cases stepped_of_step h with
  | enqueue task =>
    rw [enqueue, if_pos hstop]
    exact ⟨hstop, rfl⟩
  | lock i hready =>
    rcases lock_cases s i with hlock | ⟨_, _, hlock⟩ | ⟨_, _, _, hlock⟩
    · exact hlock ▸ ⟨hstop, rfl⟩
    · exact hlock ▸ ⟨hstop, rfl⟩
    · exact hlock ▸ ⟨hstop, rfl⟩
  | setStop hdestructor => exact ⟨rfl, rfl⟩
  -- the other steps change neither
  | _ => exact ⟨hstop, rfl⟩

theorem exited_of_setWorker {i j : Fin numThreads} {worker : Worker α}
    (h : (s.setWorker j worker).workers i = .exited) (hne : worker ≠ .exited) :
    s.workers i = .exited := by
  change Function.update s.workers j worker i = .exited at h
  by_cases hij : i = j
  · subst hij
    rw [Function.update_self] at h
    exact absurd h hne
  · rwa [Function.update_of_ne hij] at h

/-- A worker leaves its loop in a stopped pool with an empty queue. -/
theorem exited_step {a : Action α numThreads} {i : Fin numThreads} (h : step s a = some t)
    (hexited : t.workers i = .exited) :
    s.workers i = .exited ∨ (s.stop = true ∧ s.tasks = []) := by
  cases stepped_of_step h with
  | enqueue task =>
    unfold enqueue at hexited
    split_ifs at hexited
    · exact .inl hexited
    · exact .inl hexited
  | lock j hready =>
    rcases lock_cases s j with hlock | ⟨hstop, hempty, _⟩ | ⟨_, _, _, hlock⟩
    · rw [hlock] at hexited
      exact .inl (exited_of_setWorker hexited nofun)
    · exact .inr ⟨hstop, hempty⟩
    · rw [hlock] at hexited
      exact .inl (exited_of_setWorker hexited nofun)
  | woken j notifying hwaiting => exact .inl (exited_of_setWorker hexited nofun)
  | call j task hworker => exact .inl (exited_of_setWorker hexited nofun)
  | finish j task hworker => exact .inl (exited_of_setWorker hexited nofun)
  | notifyAll hdestructor => exact .inl (wake_eq_exited.mp hexited)
  | missed notifying => exact .inl hexited
  | setStop hdestructor => exact .inl hexited
  | join k hdestructor hk hworker => exact .inl hexited
  | destroyed k hdestructor hk => exact .inl hexited

/-- **No task is lost, duplicated or overtaken.**  In every state of every run the accepted tasks
are those taken, in their order, and then those in the queue; each worker has called what it has
taken, in order and once each, but for the task that it holds, and of these calls all but the one it
is in have returned; a stopped pool accepts nothing any more; and a worker leaves its loop only when
the pool is stopped and the queue is empty. -/
theorem tasks_exactly_once (h : Reachable s) :
    s.accepted = s.taken.map (·.2) ++ s.tasks ∧
    (∀ i, tasksOf i s.taken = tasksOf i s.started ++ (s.workers i).held ∧
      tasksOf i s.started = tasksOf i s.finished ++ (s.workers i).current) ∧
    (s.stop = true → ∀ t, Reaches step (fun _ _ => True) s t → t.accepted = s.accepted) ∧
    ∀ i a t, step s a = some t → s.workers i ≠ .exited → t.workers i = .exited →
      s.stop = true ∧ s.tasks = [] := by
  refine ⟨h.inv.accepted_eq, fun i => ⟨(h.inv.balanced i).1, (h.inv.balanced i).2⟩, ?_, ?_⟩
  · intro hstop t hreaches
    have hkeep : ∀ (t : ThreadPool α numThreads) a u,
        t.stop = true ∧ t.accepted = s.accepted → True → step t a = some u →
          u.stop = true ∧ u.accepted = s.accepted := by
      intro t a u hinv _ hstep
      obtain ⟨hstopped, haccepted⟩ := accepted_step hinv.1 hstep
      exact ⟨hstopped, haccepted.trans hinv.2⟩
    exact (hreaches.invariant hkeep ⟨hstop, rfl⟩).2
  · intro i a t hstep hbefore hafter
    exact (exited_step hstep hafter).resolve_left hbefore

/-- When the destructor of a pool with workers has returned, every accepted task has been run. -/
theorem Inv.finished_perm (hinv : Inv s) (hreturned : s.destructor = .returned)
    (hpos : 0 < numThreads) : (s.finished.map (·.2)).Perm s.accepted := by
  have hexited : ∀ i, s.workers i = .exited := by
    have hjoined := hinv.joined
    rwa [hreturned] at hjoined
  have hempty : s.tasks = [] := (hinv.exited ⟨0, hpos⟩ (hexited _)).2
  have hperm : s.finished.Perm s.taken := by
    refine KeyedFold.perm_of_valuesOf fun i => ?_
    show tasksOf i s.finished = tasksOf i s.taken
    obtain ⟨htaken, hstarted⟩ := hinv.balanced i
    rw [hexited i] at htaken hstarted
    rw [htaken, hstarted]
    exact ((List.append_nil _).trans (List.append_nil _)).symm
  rw [hinv.accepted_eq, hempty, List.append_nil]
  exact hperm.map _

/-- **The destructor drains the queue** exactly when there is a worker, or nothing to drain. -/
theorem destroyed_drained_iff (h : Reachable s) (hreturned : s.destructor = .returned) :
    (s.finished.map (·.2)).Perm s.accepted ↔ 0 < numThreads ∨ s.accepted = [] := by
  rcases Nat.eq_zero_or_pos numThreads with hzero | hpos
  · -- without workers nothing is ever run
    subst hzero
    have hnone : s.finished = [] := List.eq_nil_iff_forall_not_mem.mpr fun entry _ => entry.1.elim0
    rw [hnone]
    constructor
    · intro hperm
      exact .inr hperm.nil_eq.symm
    · rintro (hpos | hempty)
      · exact absurd hpos (Nat.lt_irrefl 0)
      · exact hempty ▸ List.Perm.refl _
  · constructor
    · intro _
      exact .inl hpos
    · intro _
      exact h.inv.finished_perm hreturned hpos

/-! ### Three pools -/

def firstWorker : Fin 2 := ⟨0, Nat.two_pos⟩

def secondWorker : Fin 2 := ⟨1, Nat.one_lt_two⟩

/-- A worker waits, and is woken up when there are two tasks.  The other one takes the first of them
and is the last to finish; nothing is accepted after the stop. -/
def twoWorkers : List (Action ℕ 2) :=
  [.lock firstWorker, .enqueue 7, .enqueue 8, .notifyOne (some firstWorker), .lock secondWorker,
    .lock firstWorker, .call secondWorker, .call firstWorker, .finish firstWorker,
    .finish secondWorker, .setStop, .enqueue 9]

theorem tasks_exactly_once_twoWorkers :
    ∃ s, run step (fun _ _ => True) (create ℕ 2) twoWorkers = some s ∧
      s.taken.map (·.2) ++ s.tasks = [7, 8] ∧ s.finished.map (·.2) = [8, 7] ∧
      ∀ t, Reaches step (fun _ _ => True) s t → t.accepted = [7, 8] := by
  obtain ⟨s, hs, hstop, haccepted, hfinished⟩ :
      ∃ s, run step (fun _ _ => True) (create ℕ 2) twoWorkers = some s ∧ s.stop = true ∧
        s.accepted = [7, 8] ∧ s.finished.map (·.2) = [8, 7] := ⟨_, rfl, rfl, rfl, rfl⟩
  obtain ⟨heq, -, hstopped, -⟩ := tasks_exactly_once (reaches_of_run hs)
  exact ⟨s, hs, heq.symm.trans haccepted, hfinished,
    fun t ht => (hstopped hstop t ht).trans haccepted⟩

def worker : Fin 1 := ⟨0, Nat.one_pos⟩

/-- A worker waits, is woken up for a task, runs it, and is joined. -/
def oneWorker : List (Action ℕ 1) :=
  [.lock worker, .enqueue 7, .notifyOne (some worker), .lock worker, .call worker, .finish worker,
    .lock worker, .setStop, .enqueue 8, .notifyAll, .lock worker, .join, .join]

theorem destroyed_drained_oneWorker :
    ∃ s, run step (fun _ _ => True) (create ℕ 1) oneWorker = some s ∧
      (s.finished.map (·.2)).Perm s.accepted := by
  have hs : ∃ s, run step (fun _ _ => True) (create ℕ 1) oneWorker = some s ∧
      s.destructor = .returned := ⟨_, rfl, rfl⟩
  obtain ⟨s, hs, hreturned⟩ := hs
  exact ⟨s, hs, (destroyed_drained_iff (reaches_of_run hs) hreturned).mpr (.inl Nat.one_pos)⟩

/-- A pool without workers is destroyed with a task in its queue. -/
def noWorker : List (Action ℕ 0) := [.enqueue 7, .notifyOne none, .setStop, .notifyAll, .join]

theorem not_forall_drained :
    ¬ ∀ (numThreads : ℕ) (s : ThreadPool ℕ numThreads), Reachable s → s.destructor = .returned →
      (s.finished.map (·.2)).Perm s.accepted := by
  intro h
  have hs : ∃ s, run step (fun _ _ => True) (create ℕ 0) noWorker = some s ∧
      s.destructor = .returned ∧ s.finished = [] ∧ s.accepted = [7] := ⟨_, rfl, rfl, rfl, rfl⟩
  obtain ⟨s, hs, hreturned, hfinished, haccepted⟩ := hs
  have hperm := h 0 s (reaches_of_run hs) hreturned
  rw [hfinished, haccepted] at hperm
  cases hperm.nil_eq

end NetSentry.ThreadPool
