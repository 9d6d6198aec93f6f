import Mathlib.Data.Int.Notation
import Mathlib.Data.List.Basic

/-!
# The life of the API server

`RestApi::start` spawns the server thread and sets a flag.  The server thread executes
`ServerImpl::run`, which opens a listener, sets a flag of its own and spawns the workers of the
`io_context`.  A step is a statement of `start` or `stop`, a statement of `run`, or the return of a
worker.  The calls of `start` and `stop` come one after the other; `run` may throw wherever it
allocates, opens the listener or spawns a thread.
-/

namespace NetSentry.ServerLifecycle

/-- A worker in `threads_`: it executes `ioc_.run()`, has returned from it, or has been joined. -/
inductive Worker
  | running
  | returned
  | joined
deriving DecidableEq

/-- How far `server_thread_` is in `ServerImpl::run`. -/
inductive ServerThread
  /-- `server_thread_` is not joinable. -/
  | absent
  /-- `std::make_shared<Listener>(ioc_, endpoint, routes_)`. -/
  | starting
  /-- `listener->run()`. -/
  | listening
  /-- `running_ = true`. -/
  | flagging
  /-- `threads_.reserve(num_threads)`, and the loop, which has still to add `left` workers. -/
  | emplacing (left : ℕ)
  /-- The handler of the exception. -/
  | failing
  | finished
deriving DecidableEq

/-- `run` is adding the workers. -/
def ServerThread.filling : ServerThread → Bool
  | .emplacing _ => true
  | _ => false

/-- `run` has finished, or has not been called since its thread was joined. -/
def ServerThread.ended : ServerThread → Bool
  | .absent | .finished => true
  | _ => false

/-- How far the call of `RestApi::start` or `RestApi::stop` is. -/
inductive Caller
  | idle
  /-- `start`, after the thread is spawned: `running_ = true`. -/
  | setRunning
  /-- `stop`, where `running_` is set; `ServerImpl::stop`: `if (running_)`. -/
  | testImpl
  /-- `ioc_.stop()`. -/
  | stopContext
  /-- `for (auto& thread : threads_)`, which fixes the end of the loop. -/
  | beginJoin
  | joining (i stop : ℕ)
  /-- `threads_.clear()`. -/
  | clearThreads
  /-- `running_ = false` in `ServerImpl::stop`. -/
  | clearImpl
  /-- `if (server_thread_.joinable()) server_thread_.join()`. -/
  | joinServer
  /-- `running_ = false` in `RestApi::stop`. -/
  | clearRunning
deriving DecidableEq

/-- The call is a `stop` that has stopped the `io_context`, or has passed the server over. -/
def Caller.stopping : Caller → Bool
  | .beginJoin | .joining _ _ | .clearThreads | .clearImpl | .joinServer | .clearRunning => true
  | _ => false

/-- A `RestApi`, its `ServerImpl`, and where its threads are. -/
structure System where
  /-- `RestApi::running_`. -/
  running : Bool
  /-- `ServerImpl::running_`. -/
  implRunning : Bool
  /-- `ioc_` is stopped, and nothing restarts it. -/
  contextStopped : Bool
  /-- A listener waits on `ioc_` for the next connection. -/
  accepting : Bool
  /-- `threads_`. -/
  threads : List Worker
  serverThread : ServerThread
  caller : Caller
deriving DecidableEq

/-- What happens next. -/
inductive Action
  | start
  | stop
  /-- The call in progress goes on. -/
  | caller
  /-- `run` goes on. -/
  | server
  /-- A statement of `run` throws. -/
  | serverThrows
  /-- A worker returns from `ioc_.run()`. -/
  | workerReturns (i : ℕ)

/-- The constructor. -/
def System.initial : System where
  running := false
  implRunning := false
  contextStopped := false
  accepting := false
  threads := []
  serverThread := .absent
  caller := .idle

/-- `num_threads > 0 ? num_threads : 2`, with `std::thread::hardware_concurrency()` as an `int`. -/
def numThreads (hardware : ℤ) : ℕ := if 0 < hardware then hardware.toNat else 2

/-- The next statement of the call in progress.  There is none after a `std::terminate`. -/
def System.call (s : System) : Option System :=
  match s.caller with
  | .idle => none
  | .setRunning => some { s with running := true, caller := .idle }
  | .testImpl => some { s with caller := if s.implRunning then .stopContext else .joinServer }
  | .stopContext => some { s with contextStopped := true, caller := .beginJoin }
  | .beginJoin => some { s with caller := .joining 0 s.threads.length }
  | .joining i stop =>
    if i < stop then
      match s.threads[i]? with
      | none | some .running => none
      | some _ =>
        some { s with threads := s.threads.set i .joined, caller := .joining (i + 1) stop }
    else some { s with caller := .clearThreads }
  | .clearThreads =>
    -- the destructor of a thread that is joinable terminates the process
    if ∀ worker ∈ s.threads, worker = .joined then
      some { s with threads := [], caller := .clearImpl }
    else none
  | .clearImpl => some { s with implRunning := false, caller := .joinServer }
  | .joinServer =>
    if s.serverThread.ended then some { s with serverThread := .absent, caller := .clearRunning }
    else none
  | .clearRunning => some { s with running := false, caller := .idle }

/-- The next statement of `ServerImpl::run`. -/
def System.serve (hardware : ℤ) (s : System) : Option System :=
  match s.serverThread with
  | .absent | .finished => none
  | .starting => some { s with serverThread := .listening }
  | .listening => some { s with accepting := true, serverThread := .flagging }
  | .flagging =>
    some { s with implRunning := true, serverThread := .emplacing (numThreads hardware) }
  | .emplacing (left + 1) =>
    some { s with threads := s.threads ++ [.running], serverThread := .emplacing left }
  | .emplacing 0 => some { s with serverThread := .finished }
  | .failing => some { s with implRunning := false, serverThread := .finished }

/-- The next statement of `ServerImpl::run` throws, where it can. -/
def System.serveThrows (s : System) : Option System :=
  match s.serverThread with
  | .starting | .listening | .emplacing _ => some { s with serverThread := .failing }
  | _ => none

/-- The system after a step, where the step can be taken. -/
def step (hardware : ℤ) (s : System) : Action → Option System
  | .start =>
    if s.caller = .idle then
      if s.running then some s
      -- the assignment to a thread that is joinable terminates the process
      else if s.serverThread = .absent then
        some { s with serverThread := .starting, caller := .setRunning }
      else none
    else none
  | .stop =>
    if s.caller = .idle then
      if s.running then some { s with caller := .testImpl } else some s
    else none
  | .caller => s.call
  | .server => s.serve hardware
  | .serverThrows => s.serveThrows
  | .workerReturns i =>
    if s.threads[i]? = some .running ∧ s.contextStopped then
      some { s with threads := s.threads.set i .returned }
    else none

end NetSentry.ServerLifecycle
