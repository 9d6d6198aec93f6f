import Mathlib.Data.Nat.Notation
import Mathlib.Logic.Function.Basic

/-!
# `CollectorBase`

`start` and `stop` of a collector, called from any number of threads, and the threads that execute
its `collectLoop`.  A step is one read or write of `running_`, one change of `mutex_` or of
`worker_thread_`, or one iteration of a wait; all steps are sequentially consistent.  A call cannot
go on where it waits, nor where it has ended the process.
-/

namespace NetSentry

namespace CollectorBase

/-- How far a thread is in `collectLoop`. -/
inductive Loop
  /-- `while (running_)`. -/
  | testing
  /-- `collect()`. -/
  | collecting
  /-- `while (running_ && …) sleep_for(…)`. -/
  | sleeping
deriving DecidableEq

/-- How far a call is. -/
inductive Call
  | idle
  /-- `start`: `lock_guard<std::mutex> lock(mutex_)`. -/
  | startLocking
  /-- `if (running_)`. -/
  | startTesting
  /-- `running_ = true`. -/
  | startSetting
  /-- `std::thread(&CollectorBase::collectLoop, this)`. -/
  | startSpawning
  /-- `worker_thread_ = …`. -/
  | startAssigning (thread : ℕ)
  /-- The end of the guard, and `start` returns. -/
  | startUnlocking
  /-- `stop`: `lock_guard<std::mutex> lock(mutex_)`. -/
  | stopLocking
  /-- `if (!running_)`. -/
  | stopTesting
  /-- `running_ = false`. -/
  | stopClearing
  /-- The end of the guard, after `starts` calls of `start` that set `running_`. -/
  | stopUnlocking (starts : ℕ)
  /-- `if (worker_thread_.joinable())`. -/
  | joinTesting (starts : ℕ)
  /-- `worker_thread_.join()`. -/
  | joining (starts : ℕ)
  /-- The end of the guard where `running_` was not set. -/
  | stopLeaving (starts : ℕ)
  /-- `stop` returns. -/
  | stopReturning (starts : ℕ)
deriving DecidableEq

end CollectorBase

open CollectorBase in
/-- `CollectorBase`, its calls and the threads in its `collectLoop`. -/
structure CollectorBase (ι : Type*) where
  running : Bool
  /-- The thread that is joinable through `worker_thread_`. -/
  workerThread : Option ℕ
  /-- The call that has locked `mutex_`. -/
  mutex : Option ι
  calls : ι → Call
  /-- The threads that are in `collectLoop`. -/
  loops : ℕ → Option Loop
  /-- The calls of `start` that have set `running_`. -/
  starts : ℕ

namespace CollectorBase

variable {ι : Type*} [DecidableEq ι]

/-- The constructor. -/
def create : CollectorBase ι where
  running := false
  workerThread := none
  mutex := none
  calls := fun _ => .idle
  loops := fun _ => none
  starts := 0

/-- A call goes on. -/
def goto (s : CollectorBase ι) (i : ι) (call : Call) : CollectorBase ι :=
  { s with calls := Function.update s.calls i call }

/-- A thread goes on in `collectLoop`, or ends. -/
def setLoop (s : CollectorBase ι) (thread : ℕ) (loop : Option Loop) : CollectorBase ι :=
  { s with loops := Function.update s.loops thread loop }

/-- The call waits for the mutex. -/
def lock (s : CollectorBase ι) (i : ι) (call : Call) : Option (CollectorBase ι) :=
  if s.mutex = none then some ({ s with mutex := some i }.goto i call) else none

/-- The next step of the call that thread `i` is in.  A thread that is created gets an identifier
that no thread has. -/
def advance (s : CollectorBase ι) (i : ι) (fresh : ℕ) : Call → Option (CollectorBase ι)
  | .idle => none
  | .startLocking => s.lock i .startTesting
  | .startTesting => some (s.goto i (if s.running then .startUnlocking else .startSetting))
  | .startSetting =>
    some ({ s with running := true, starts := s.starts + 1 }.goto i .startSpawning)
  | .startSpawning =>
    if s.loops fresh = none ∧ s.workerThread ≠ some fresh then
      some ((s.setLoop fresh (some .testing)).goto i (.startAssigning fresh))
    else none
  | .startAssigning thread =>
    -- the assignment to a thread that is joinable terminates the process
    if s.workerThread = none then
      some ({ s with workerThread := some thread }.goto i .startUnlocking)
    else none
  | .startUnlocking => some ({ s with mutex := none }.goto i .idle)
  | .stopLocking => s.lock i .stopTesting
  | .stopTesting => some (s.goto i (if s.running then .stopClearing else .stopLeaving s.starts))
  | .stopClearing => some ({ s with running := false }.goto i (.stopUnlocking s.starts))
  | .stopUnlocking starts => some ({ s with mutex := none }.goto i (.joinTesting starts))
  | .joinTesting starts =>
    some (s.goto i (if s.workerThread = none then .stopReturning starts else .joining starts))
  | .joining starts =>
    match s.workerThread with
    -- `join` throws where there is nothing to join any more
    | none => some (s.goto i .idle)
    | some thread =>
      if s.loops thread = none then
        some ({ s with workerThread := none }.goto i (.stopReturning starts))
      else none
  | .stopLeaving starts => some ({ s with mutex := none }.goto i (.stopReturning starts))
  | .stopReturning _ => some (s.goto i .idle)

/-- The next step of a thread in `collectLoop`.  Its wait ends when the interval is over. -/
def iterate (s : CollectorBase ι) (thread : ℕ) (intervalOver : Bool) : Option (CollectorBase ι) :=
  match s.loops thread with
  | none => none
  | some .testing => some (s.setLoop thread (if s.running then some .collecting else none))
  | some .collecting => some (s.setLoop thread (some .sleeping))
  | some .sleeping =>
    some (s.setLoop thread (some (if s.running ∧ ¬ intervalOver then .sleeping else .testing)))

/-- What happens next. -/
inductive Action (ι : Type*)
  /-- A thread calls `start`. -/
  | start (i : ι)
  /-- A thread calls `stop`. -/
  | stop (i : ι)
  | advance (i : ι) (fresh : ℕ)
  | iterate (thread : ℕ) (intervalOver : Bool)

/-- The collector after a step, where the step can be taken. -/
def step (s : CollectorBase ι) : Action ι → Option (CollectorBase ι)
  | .start i => if s.calls i = .idle then some (s.goto i .startLocking) else none
  | .stop i => if s.calls i = .idle then some (s.goto i .stopLocking) else none
  | .advance i fresh => s.advance i fresh (s.calls i)
  | .iterate thread intervalOver => s.iterate thread intervalOver

end CollectorBase

end NetSentry
