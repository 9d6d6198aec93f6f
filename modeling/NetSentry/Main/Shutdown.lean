import Mathlib.Data.List.Basic
import Mathlib.Logic.Function.Basic

/-!
# The lifetime of the locals of `main`

The tasks that `main` gives to the thread pool hold references to its local variables.  A task is
the list of the accesses it makes to them, and `step` is a step of `main` (an iteration of its loop,
a statement of its shutdown, a destructor), of the capture thread, or of a worker of the pool.  The
locals are destroyed in the reverse order of their declarations, and the pool drains its queue in
its own destructor.
-/

namespace NetSentry.Shutdown

/-- The locals of `main` that the tasks refer to, and those destroyed between them. -/
inductive Local
  | threadPool
  | database
  | collectors
  | packetCapture
  | packetAnalyzer
  | alertManager
deriving DecidableEq

/-- The order of the declarations. -/
def declarations : List Local :=
  [.threadPool, .database, .collectors, .packetCapture, .packetAnalyzer, .alertManager]

/-- A task of the pool.  What it finds when it runs is left open: whether the connection has
statistics, how many alerts fire and how many collector accesses it makes. -/
inductive Task
  | packet (hasStats : Bool)
  | checkAlerts (fired : ℕ)
  | storeMetrics (reads : ℕ)
  | cleanup
deriving DecidableEq

/-- The accesses of a task, in order. -/
def Task.accesses : Task → List Local
  | .packet hasStats =>
    -- `processPacket`, `createConnectionKey`, `getConnectionStats`; `updateConnection`
    [.packetAnalyzer, .packetAnalyzer, .packetAnalyzer] ++ if hasStats then [.database] else []
  | .checkAlerts fired =>
    -- the lock; `recordAlertFired` and the callback's `insertAlert` for each alert; the unlock
    [.alertManager] ++ (List.replicate fired [.alertManager, .database]).flatten ++ [.alertManager]
  | .storeMetrics reads =>
    -- the range of the loop; `getMetricNames` and `getMetric`; `insertMetrics`
    [.collectors] ++ List.replicate reads .collectors ++ [.database]
  | .cleanup =>
    -- `pruneMetricsBefore`, `pruneConnectionsBefore`, `pruneAlertsBefore`
    [.database, .database, .database]

/-- What `main` has still to do. -/
inductive Statement
  | enqueue (task : Task)
  | stopCollectors
  | stopCapture
  | destroy (object : Local)
  /-- The first half of the destructor of the pool: `stop_` is set. -/
  | stopPool
  /-- The second half: the workers are joined. -/
  | joinWorkers
deriving DecidableEq

/-- The destructor of a local. -/
def destructor : Local → List Statement
  | .threadPool => [.stopPool, .joinWorkers, .destroy .threadPool]
  | object => [.destroy object]

/-- What `main` does after its loop. -/
def shutdown : List Statement :=
  [.stopCollectors, .stopCapture] ++ declarations.reverse.flatMap destructor

/-- A worker of the pool. -/
inductive Worker
  | idle
  | busy (accesses : List Local)
  | exited
deriving DecidableEq

/-- `main`, the capture thread and the pool with its `n` workers. -/
structure World (n : ℕ) where
  inLoop : Bool
  statements : List Statement
  capturing : Bool
  stop : Bool
  tasks : List Task
  workers : Fin n → Worker
  destroyed : List Local
  /-- Some task has made an access to a local after its destruction. -/
  misuse : Bool

/-- A step of `main`, of the capture thread or of a worker. -/
inductive Action (n : ℕ)
  | iterate (fired reads : ℕ) (cleanup : Bool)
  | leaveLoop
  | main
  | capture (hasStats : Bool)
  | take (i : Fin n)
  | access (i : Fin n)
  | finish (i : Fin n)
  | exit (i : Fin n)

variable {n : ℕ}

/-- `main` before the first iteration of its loop. -/
def World.initial (capturing : Bool) : World n where
  inLoop := true
  statements := []
  capturing := capturing
  stop := false
  tasks := []
  workers := fun _ => .idle
  destroyed := []
  misuse := false

/-- `ThreadPool::enqueue`, which throws once the pool is stopped. -/
def World.enqueue (w : World n) (task : Task) : Option (World n) :=
  if w.stop then none else some { w with tasks := w.tasks ++ [task] }

/-- A statement of `main`. -/
def World.execute (w : World n) : Statement → Option (World n)
  | .enqueue task => w.enqueue task
  | .stopCollectors => some w
  | .stopCapture => some { w with capturing := false }
  | .destroy object => some { w with destroyed := object :: w.destroyed }
  | .stopPool => some { w with stop := true }
  | .joinWorkers => if ∀ i, w.workers i = .exited then some w else none

/-- The world after a step, where the step can be taken. -/
def step (w : World n) : Action n → Option (World n)
  | .iterate fired reads cleanup =>
    if w.inLoop ∧ w.statements = [] then
      some { w with statements := [.enqueue (.checkAlerts fired), .enqueue (.storeMetrics reads)]
        ++ if cleanup then [.enqueue .cleanup] else [] }
    else none
  | .leaveLoop =>
    if w.inLoop ∧ w.statements = [] then
      some { w with inLoop := false, statements := shutdown }
    else none
  | .main =>
    match w.statements with
    | statement :: statements => { w with statements := statements }.execute statement
    | [] => none
  | .capture hasStats => if w.capturing then w.enqueue (.packet hasStats) else none
  | .take i =>
    match w.workers i, w.tasks with
    | .idle, task :: tasks =>
      some { w with tasks := tasks, workers := Function.update w.workers i (.busy task.accesses) }
    | _, _ => none
  | .access i =>
    match w.workers i with
    | .busy (object :: accesses) =>
      some { w with
        workers := Function.update w.workers i (.busy accesses)
        misuse := w.misuse || decide (object ∈ w.destroyed) }
    | _ => none
  | .finish i =>
    if w.workers i = .busy [] then
      some { w with workers := Function.update w.workers i .idle }
    else none
  | .exit i =>
    if w.workers i = .idle ∧ w.stop ∧ w.tasks = [] then
      some { w with workers := Function.update w.workers i .exited }
    else none

end NetSentry.Shutdown
