import Mathlib.Data.List.Basic
import Mathlib.Logic.Function.Basic

/-!
# `ThreadPool`

The thread pool of `core/utils/thread_pool.hpp` with any number of workers, for tasks of any type.
A step is a critical section of `queue_mutex_`, a notification, the call of a task or its return, or
a statement of the destructor.  Any number of threads may call `enqueue`; the ends of a future are
not modelled, so that a task that throws is one that returns.

`accepted`, `taken`, `started` and `finished` are the history of a run: no step depends on them.
-/

namespace NetSentry

namespace ThreadPool

/-- Where a worker is in its loop. -/
inductive Worker (α : Type*)
  /-- Before the critical section: at the start of an iteration, or woken up. -/
  | ready
  /-- Blocked in `condition_.wait`. -/
  | waiting
  /-- Past the critical section with a task, before its call. -/
  | holding (task : α)
  /-- In the call of the task. -/
  | running (task : α)
  | exited

/-- How far the destructor is. -/
inductive Destructor
  | notBegun
  /-- `stop_` is set, `notify_all` is still to come. -/
  | stopped
  /-- The workers before this one are joined. -/
  | joining (worker : ℕ)
  | returned
deriving DecidableEq

end ThreadPool

open ThreadPool in
/-- `ThreadPool`. -/
structure ThreadPool (α : Type*) (numThreads : ℕ) where
  workers : Fin numThreads → Worker α
  tasks : List α
  stop : Bool
  destructor : Destructor
  /-- The calls of `enqueue` that are between their critical section and `notify_one`. -/
  notifying : ℕ
  /-- The tasks that `enqueue` has put into the queue. -/
  accepted : List α
  /-- The tasks that workers have taken out of the queue. -/
  taken : List (Fin numThreads × α)
  /-- The calls of tasks. -/
  started : List (Fin numThreads × α)
  /-- The calls of tasks that have returned. -/
  finished : List (Fin numThreads × α)

namespace ThreadPool

variable {α : Type*} {numThreads : ℕ}

/-- The constructor. -/
def create (α : Type*) (numThreads : ℕ) : ThreadPool α numThreads where
  workers := fun _ => .ready
  tasks := []
  stop := false
  destructor := .notBegun
  notifying := 0
  accepted := []
  taken := []
  started := []
  finished := []

/-- A worker is blocked in `condition_.wait`. -/
def Worker.isWaiting : Worker α → Bool
  | .waiting => true
  | _ => false

/-- `notify_all` and a wakeup, seen from a worker. -/
def Worker.wake : Worker α → Worker α
  | .waiting => .ready
  | worker => worker

/-- A worker goes on. -/
def setWorker (s : ThreadPool α numThreads) (i : Fin numThreads) (worker : Worker α) :
    ThreadPool α numThreads :=
  { s with workers := Function.update s.workers i worker }

/-- The critical section of `enqueue`, which throws once the pool is stopped. -/
def enqueue (s : ThreadPool α numThreads) (task : α) : ThreadPool α numThreads :=
  if s.stop then s
  else { s with
    tasks := s.tasks ++ [task]
    notifying := s.notifying + 1
    accepted := s.accepted ++ [task] }

/-- The critical section of a worker: the test of `condition_.wait`, then the end of the loop or the
task at the front. -/
def lock (s : ThreadPool α numThreads) (i : Fin numThreads) : ThreadPool α numThreads :=
  match s.stop, s.tasks with
  | false, [] => s.setWorker i .waiting
  | true, [] => s.setWorker i .exited
  | _, task :: tasks =>
    { s.setWorker i (.holding task) with tasks := tasks, taken := s.taken ++ [(i, task)] }

/-- A step of an enqueueing thread, of a worker or of the destructor. -/
inductive Action (α : Type*) (numThreads : ℕ)
  | enqueue (task : α)
  /-- `notify_one`, with the worker that is woken up if there is one. -/
  | notifyOne (woken : Option (Fin numThreads))
  /-- A wakeup without a notification. -/
  | wakeup (i : Fin numThreads)
  | lock (i : Fin numThreads)
  | call (i : Fin numThreads)
  | finish (i : Fin numThreads)
  | setStop
  | notifyAll
  | join

/-- The pool after a step, where the step can be taken. -/
def step (s : ThreadPool α numThreads) : Action α numThreads → Option (ThreadPool α numThreads)
  | .enqueue task => some (s.enqueue task)
  | .notifyOne (some i) =>
    if s.notifying ≠ 0 ∧ (s.workers i).isWaiting then
      some { s.setWorker i .ready with notifying := s.notifying - 1 }
    else none
  | .notifyOne none =>
    if s.notifying ≠ 0 ∧ ∀ i, (s.workers i).isWaiting = false then
      some { s with notifying := s.notifying - 1 }
    else none
  | .wakeup i => if (s.workers i).isWaiting then some (s.setWorker i .ready) else none
  | .lock i =>
    match s.workers i with
    | .ready => some (s.lock i)
    | _ => none
  | .call i =>
    match s.workers i with
    | .holding task =>
      some { s.setWorker i (.running task) with started := s.started ++ [(i, task)] }
    | _ => none
  | .finish i =>
    match s.workers i with
    | .running task => some { s.setWorker i .ready with finished := s.finished ++ [(i, task)] }
    | _ => none
  | .setStop =>
    match s.destructor with
    | .notBegun => some { s with stop := true, destructor := .stopped }
    | _ => none
  | .notifyAll =>
    match s.destructor with
    | .stopped => some { s with workers := fun i => (s.workers i).wake, destructor := .joining 0 }
    | _ => none
  | .join =>
    match s.destructor with
    | .joining k =>
      if h : k < numThreads then
        match s.workers ⟨k, h⟩ with
        | .exited => some { s with destructor := .joining (k + 1) }
        | _ => none
      else some { s with destructor := .returned }
    | _ => none

/-- The tasks of one worker. -/
def tasksOf (i : Fin numThreads) (history : List (Fin numThreads × α)) : List α :=
  (history.filter (·.1 = i)).map (·.2)

/-- The task that a worker has taken and not called yet. -/
def Worker.held : Worker α → List α
  | .holding task => [task]
  | _ => []

/-- The task that a worker is running. -/
def Worker.current : Worker α → List α
  | .running task => [task]
  | _ => []

end ThreadPool

end NetSentry
