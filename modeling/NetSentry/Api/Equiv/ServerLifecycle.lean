import NetSentry.Api.ServerLifecycle
import NetSentry.Lib.Transition

/-!
# When the flags of the API server agree with what it does

`consistent_of_reaches`: `isRunning` tells whether the server serves, and `stop` leaves no worker
behind, in every run in which `run` and `stop` do not miss each other and `run` succeeds on an
`io_context` that is not stopped.

* `Phase`: what holds at each statement of a call.  While no `stop` has got hold of the server, the
  server thread alone accounts for the second flag and the workers (`System.Healthy`).
* `inv_call`, `inv_serve`, `inv_serveThrows`, `inv_workerReturns`: one lemma for each party.
-/

namespace NetSentry.ServerLifecycle

open Transition

variable {hardware : ℤ} {s s' : System}

/-! ### The statement -/

/-- A listener accepts, and the workers serve it. -/
def System.Serving (s : System) : Prop :=
  s.accepting = true ∧ s.contextStopped = false ∧ s.threads ≠ [] ∧
    ∀ worker ∈ s.threads, worker = .running

/-- No call is between its first change and its last, and none is a `stop` that has passed the
server over. -/
def Caller.settled (c : Caller) : Bool := c ≠ .setRunning && !c.stopping

/-- What is expected of the server. -/
structure Consistent (s : System) : Prop where
  /-- Once `stop` has returned no worker is left unjoined. -/
  joined : s.caller = .idle → s.running = false → ∀ worker ∈ s.threads, worker = .joined
  /-- No worker is destroyed unjoined. -/
  cleared : s.caller = .clearThreads → ∀ worker ∈ s.threads, worker = .joined
  /-- `isRunning` tells whether the server serves, once `run` has finished. -/
  agrees : s.serverThread.ended = true → s.caller.settled = true →
    (s.running = true ↔ s.Serving)

/-- `run` sets its flag only while no `stop` that found it unset waits for the server thread, it
ends successfully only if the `io_context` is not stopped or a `stop` is under way, and by an
exception only if a `stop` is under way. -/
def System.ServesOrderly (s : System) : ServerThread → Prop
  | .flagging => s.caller ≠ .joinServer
  | .emplacing 0 => s.contextStopped = false ∨ s.caller.stopping = true
  | .failing => s.caller.stopping = true
  | _ => True

/-- `run` is orderly, and a `stop` begins to join the workers only when `run` is not adding any. -/
def Orderly (s : System) : Action → Prop
  | .server => s.ServesOrderly s.serverThread
  | .caller => s.caller = .beginJoin → s.serverThread.filling = false
  | _ => True

instance (s : System) : ∀ thread, Decidable (s.ServesOrderly thread)
  | .flagging => inferInstanceAs (Decidable (¬ _))
  | .emplacing 0 => inferInstanceAs (Decidable (_ ∨ _))
  | .failing => inferInstanceAs (Decidable (_ = _))
  | .absent | .starting | .listening | .emplacing (_ + 1) | .finished => .isTrue trivial

instance (s : System) : ∀ a, Decidable (Orderly s a)
  | .server => inferInstanceAs (Decidable (s.ServesOrderly s.serverThread))
  | .caller => inferInstanceAs (Decidable (_ → _))
  | .start | .stop | .serverThrows | .workerReturns _ => .isTrue trivial

/-! ### The invariant -/

/-- The server thread is past the adding of workers. -/
def ServerThread.leaving : ServerThread → Bool
  | .failing | .finished => true
  | _ => false

/-- What the server thread has done so far, while no `stop` has got hold of the server. -/
def System.Healthy (hardware : ℤ) (s : System) : Prop :=
  match s.serverThread with
  | .absent => False
  | .starting | .listening => s.implRunning = false ∧ s.threads = []
  | .flagging => s.implRunning = false ∧ s.threads = [] ∧ s.accepting = true
  | .emplacing left =>
    s.implRunning = true ∧ s.accepting = true ∧ s.threads.length + left = numThreads hardware
  | .failing => s.implRunning = false → s.threads = []
  | .finished => s.implRunning = true ∧ s.accepting = true ∧ s.contextStopped = false ∧
    s.threads.length = numThreads hardware

/-- Nothing of the server is left. -/
def System.Clean (s : System) : Prop :=
  s.serverThread = .absent ∧ s.implRunning = false ∧ s.threads = []

/-- What holds at each statement of a call. -/
def Phase (hardware : ℤ) (s : System) : Caller → Prop
  | .idle => if s.running then s.Healthy hardware else s.Clean
  | .setRunning => s.Healthy hardware
  | .testImpl => s.running = true ∧ s.Healthy hardware
  | .stopContext => s.running = true ∧ s.Healthy hardware ∧ s.implRunning = true
  | .beginJoin => s.contextStopped = true ∧
    (s.serverThread.filling = true ∨ s.serverThread.leaving = true)
  | .joining i stop => s.contextStopped = true ∧ s.serverThread.leaving = true ∧
    stop = s.threads.length ∧ ∀ worker ∈ s.threads.take i, worker = .joined
  | .clearThreads => s.serverThread.leaving = true ∧ ∀ worker ∈ s.threads, worker = .joined
  | .clearImpl => s.serverThread.leaving = true ∧ s.threads = []
  | .joinServer => s.serverThread.filling = false ∧ s.implRunning = false ∧ s.threads = []
  | .clearRunning => s.Clean

/-- **The invariant.** -/
structure Inv (hardware : ℤ) (s : System) : Prop where
  phase : Phase hardware s s.caller
  /-- Workers return only from a stopped `io_context`. -/
  serving : s.contextStopped = false → ∀ worker ∈ s.threads, worker = .running

theorem inv_initial : Inv hardware System.initial where
  phase := ⟨rfl, rfl, rfl⟩
  serving := fun _ _ h => absurd h List.not_mem_nil

/-! ### The statements of `start` and `stop` -/

/-- Joining the next worker joins one more of them. -/
theorem joined_take_succ {threads : List Worker} {i : ℕ}
    (h : ∀ worker ∈ threads.take i, worker = .joined) :
    ∀ worker ∈ (threads.set i .joined).take (i + 1), worker = .joined := by
  intro worker hworker
  obtain ⟨j, hj, rfl⟩ := List.getElem_of_mem hworker
  rw [List.length_take, List.length_set] at hj
  rw [List.getElem_take, List.getElem_set]
  split_ifs with hij
  · rfl
  · apply h
    exact List.mem_take_iff_getElem.mpr ⟨j, by omega, rfl⟩

theorem inv_call (hinv : Inv hardware s) (horderly : Orderly s .caller) (h : s.call = some s') :
    Inv hardware s' := by
  obtain ⟨hphase, hserving⟩ := hinv
  rw [System.call] at h
  cases hcaller : s.caller <;> rw [hcaller] at hphase h
  case idle => cases h
  case setRunning =>
    obtain rfl := Option.some.inj h
    exact ⟨hphase, hserving⟩
  case testImpl =>
    obtain rfl := Option.some.inj h
    obtain ⟨hrunning, hhealthy⟩ := hphase
    refine ⟨?_, hserving⟩
    show Phase hardware _ (if s.implRunning then .stopContext else .joinServer)
    split_ifs with himpl
    · exact ⟨hrunning, hhealthy, himpl⟩
    · -- the flag is not set yet, or `run` has failed before it set it
      refine ⟨?_, by simpa using himpl, ?_⟩
      · cases hthread : s.serverThread <;> simp_all [System.Healthy, ServerThread.filling]
      · cases hthread : s.serverThread <;> simp_all [System.Healthy]
  case stopContext =>
    obtain rfl := Option.some.inj h
    obtain ⟨-, hhealthy, himpl⟩ := hphase
    refine ⟨⟨rfl, ?_⟩, nofun⟩
    cases hthread : s.serverThread <;>
      simp_all [System.Healthy, ServerThread.filling, ServerThread.leaving]
  case beginJoin =>
    obtain rfl := Option.some.inj h
    obtain ⟨hstopped, hthread⟩ := hphase
    have hleaving := hthread.resolve_left (by rw [horderly hcaller]; decide)
    exact ⟨⟨hstopped, hleaving, rfl, fun _ hmem => absurd hmem List.not_mem_nil⟩, hserving⟩
  case joining i stop =>
    obtain ⟨hstopped, hleaving, hlength, hjoined⟩ := hphase
    dsimp only at h
    split_ifs at h with hi
    · split at h
      · cases h
      · cases h
      · obtain rfl := Option.some.inj h
        refine ⟨⟨hstopped, hleaving, ?_, joined_take_succ hjoined⟩, ?_⟩
        · rw [List.length_set, hlength]
        · intro hnot
          exact absurd (hnot.symm.trans hstopped) (by decide)
    · obtain rfl := Option.some.inj h
      refine ⟨⟨hleaving, ?_⟩, hserving⟩
      rw [List.take_of_length_le (by omega)] at hjoined
      exact hjoined
  case clearThreads =>
    dsimp only at h
    split_ifs at h
    obtain rfl := Option.some.inj h
    exact ⟨⟨hphase.1, rfl⟩, fun _ _ hmem => absurd hmem List.not_mem_nil⟩
  case clearImpl =>
    obtain rfl := Option.some.inj h
    refine ⟨⟨?_, rfl, hphase.2⟩, hserving⟩
    cases hthread : s.serverThread <;>
      simp_all [Phase, ServerThread.filling, ServerThread.leaving]
  case joinServer =>
    dsimp only at h
    split_ifs at h
    obtain rfl := Option.some.inj h
    exact ⟨⟨rfl, hphase.2.1, hphase.2.2⟩, hserving⟩
  case clearRunning =>
    obtain rfl := Option.some.inj h
    exact ⟨hphase, hserving⟩

/-! ### The server thread -/

/-- While no `stop` has got hold of the server, what the server thread does is accounted for. -/
theorem healthy_serve (hhealthy : s.Healthy hardware) (horderly : Orderly s .server)
    (hsettled : s.caller.stopping = false) (h : s.serve hardware = some s') :
    s'.Healthy hardware ∧ (s.implRunning = true → s'.implRunning = true) := by
  rw [System.serve] at h
  rw [Orderly] at horderly
  unfold System.Healthy at hhealthy
  cases hthread : s.serverThread <;> rw [hthread] at hhealthy horderly h
  case absent => cases h
  case finished => cases h
  case starting =>
    obtain rfl := Option.some.inj h
    exact ⟨hhealthy, id⟩
  case listening =>
    obtain rfl := Option.some.inj h
    exact ⟨⟨hhealthy.1, hhealthy.2, rfl⟩, id⟩
  case flagging =>
    obtain rfl := Option.some.inj h
    refine ⟨⟨rfl, hhealthy.2.2, ?_⟩, fun _ => rfl⟩
    rw [hhealthy.2.1, List.length_nil, Nat.zero_add]
  case emplacing left =>
    cases left with
    | succ left =>
      obtain rfl := Option.some.inj h
      refine ⟨⟨hhealthy.1, hhealthy.2.1, ?_⟩, id⟩
      rw [List.length_append, List.length_singleton, ← hhealthy.2.2, Nat.add_assoc, Nat.add_comm 1]
    | zero =>
      obtain rfl := Option.some.inj h
      have hstopped := horderly.resolve_right (by rw [hsettled]; decide)
      exact ⟨⟨hhealthy.1, hhealthy.2.1, hstopped, hhealthy.2.2⟩, id⟩
  case failing =>
    -- `run` fails only while a `stop` is under way
    exact absurd (hsettled.symm.trans horderly) (by decide)

theorem healthy_serveThrows (hhealthy : s.Healthy hardware) (h : s.serveThrows = some s') :
    s'.Healthy hardware ∧ (s.implRunning = true → s'.implRunning = true) := by
  rw [System.serveThrows] at h
  unfold System.Healthy at hhealthy
  cases hthread : s.serverThread <;> rw [hthread] at hhealthy h
  case starting =>
    obtain rfl := Option.some.inj h
    exact ⟨fun _ => hhealthy.2, id⟩
  case listening =>
    obtain rfl := Option.some.inj h
    exact ⟨fun _ => hhealthy.2, id⟩
  case emplacing left =>
    -- the flag is set: nothing is claimed of the workers that `run` leaves behind
    obtain rfl := Option.some.inj h
    exact ⟨fun himpl => absurd (hhealthy.1.symm.trans himpl) (by decide), id⟩
  all_goals cases h

/-- A step of the server thread that keeps what the call in progress relies on keeps the phase. -/
theorem phase_of_healthy (hphase : Phase hardware s s.caller)
    (hsettled : s.caller.stopping = false) (hcaller : s'.caller = s.caller)
    (hrunning : s'.running = s.running) (hpresent : s.serverThread ≠ .absent)
    (hhealthy : s.Healthy hardware → s'.Healthy hardware ∧
      (s.implRunning = true → s'.implRunning = true)) :
    Phase hardware s' s'.caller := by
  rw [hcaller]
  cases hc : s.caller <;> rw [hc] at hphase hsettled
  case idle =>
    simp only [Phase, hrunning] at hphase ⊢
    split_ifs at hphase ⊢
    · exact (hhealthy hphase).1
    · exact absurd hphase.1 hpresent
  case setRunning => exact (hhealthy hphase).1
  case testImpl => exact ⟨hrunning.trans hphase.1, (hhealthy hphase.2).1⟩
  case stopContext =>
    exact ⟨hrunning.trans hphase.1, (hhealthy hphase.2.1).1, (hhealthy hphase.2.1).2 hphase.2.2⟩
  all_goals cases hsettled

theorem caller_serve (h : s.serve hardware = some s') :
    s'.caller = s.caller ∧ s'.running = s.running ∧ s'.contextStopped = s.contextStopped := by
  rw [System.serve] at h
  split at h <;> first | (obtain rfl := Option.some.inj h; exact ⟨rfl, rfl, rfl⟩) | cases h

theorem caller_serveThrows (h : s.serveThrows = some s') :
    s'.caller = s.caller ∧ s'.running = s.running ∧ s'.contextStopped = s.contextStopped := by
  rw [System.serveThrows] at h
  split at h <;> first | (obtain rfl := Option.some.inj h; exact ⟨rfl, rfl, rfl⟩) | cases h

/-- A `stop` that is under way goes on as before, whatever the server thread does. -/
theorem phase_serve_of_stopping (hphase : Phase hardware s s.caller)
    (horderly : Orderly s .server) (hstopping : s.caller.stopping = true)
    (h : s.serve hardware = some s') : Phase hardware s' s'.caller := by
  rw [(caller_serve h).1]
  rw [System.serve] at h
  rw [Orderly] at horderly
  split at h <;> rename_i hthread <;> rw [hthread] at horderly
  case h_1 => cases h
  case h_2 => cases h
  case h_8 =>
    -- the handler clears the flag of the server
    obtain rfl := Option.some.inj h
    cases hc : s.caller <;> rw [hc] at hphase hstopping
    case beginJoin => exact ⟨hphase.1, .inr rfl⟩
    case joining i stop => exact ⟨hphase.1, rfl, hphase.2.2⟩
    case clearThreads => exact ⟨rfl, hphase.2⟩
    case clearImpl => exact ⟨rfl, hphase.2⟩
    case joinServer => exact ⟨rfl, rfl, hphase.2.2⟩
    case clearRunning => cases hthread.symm.trans hphase.1
    all_goals cases hstopping
  all_goals
    obtain rfl := Option.some.inj h
    cases hc : s.caller <;> rw [hc] at hphase hstopping <;>
      simp_all [Phase, System.Clean, System.ServesOrderly, Caller.stopping, ServerThread.filling,
        ServerThread.leaving]

theorem phase_serveThrows_of_stopping (hphase : Phase hardware s s.caller)
    (hstopping : s.caller.stopping = true) (h : s.serveThrows = some s') :
    Phase hardware s' s'.caller := by
  rw [(caller_serveThrows h).1]
  rw [System.serveThrows] at h
  split at h <;> rename_i hthread
  case h_4 => cases h
  all_goals
    obtain rfl := Option.some.inj h
    cases hc : s.caller <;> rw [hc] at hphase hstopping <;>
      simp_all [Phase, System.Clean, Caller.stopping, ServerThread.filling, ServerThread.leaving]

theorem inv_serve (hinv : Inv hardware s) (horderly : Orderly s .server)
    (h : s.serve hardware = some s') : Inv hardware s' := by
  obtain ⟨hcaller, hrunning, hstopped⟩ := caller_serve h
  constructor
  · cases hstopping : s.caller.stopping
    · have hpresent : s.serverThread ≠ .absent := by
        intro habsent
        rw [System.serve, habsent] at h
        cases h
      exact phase_of_healthy hinv.phase hstopping hcaller hrunning hpresent fun hhealthy =>
        healthy_serve hhealthy horderly hstopping h
    · exact phase_serve_of_stopping hinv.phase horderly hstopping h
  · intro hnot worker hworker
    have hall := hinv.serving (hstopped.symm.trans hnot)
    rw [System.serve] at h
    split at h
    case h_6 =>
      -- the worker that is added begins to serve
      obtain rfl := Option.some.inj h
      rcases List.mem_append.mp hworker with hold | hnew
      · exact hall worker hold
      · exact List.mem_singleton.mp hnew
    all_goals first
      | (obtain rfl := Option.some.inj h; exact hall worker hworker)
      | cases h

theorem inv_serveThrows (hinv : Inv hardware s) (h : s.serveThrows = some s') :
    Inv hardware s' := by
  obtain ⟨hcaller, hrunning, -⟩ := caller_serveThrows h
  constructor
  · cases hstopping : s.caller.stopping
    · have hpresent : s.serverThread ≠ .absent := by
        intro habsent
        rw [System.serveThrows, habsent] at h
        cases h
      exact phase_of_healthy hinv.phase hstopping hcaller hrunning hpresent fun hhealthy =>
        healthy_serveThrows hhealthy h
    · exact phase_serveThrows_of_stopping hinv.phase hstopping h
  · rw [System.serveThrows] at h
    split at h <;> first | (obtain rfl := Option.some.inj h; exact hinv.serving) | cases h

/-! ### The workers -/

/-- A worker that was running is not among those that are joined already. -/
theorem joined_take_set {threads : List Worker} {i n : ℕ} (hi : threads[i]? = some .running)
    (h : ∀ worker ∈ threads.take n, worker = .joined) :
    ∀ worker ∈ (threads.set i .returned).take n, worker = .joined := by
  intro worker hworker
  obtain ⟨j, hj, rfl⟩ := List.getElem_of_mem hworker
  rw [List.length_take, List.length_set] at hj
  have hmem : threads[j] ∈ threads.take n := List.mem_take_iff_getElem.mpr ⟨j, by omega, rfl⟩
  rw [List.getElem_take, List.getElem_set]
  split_ifs with hij
  · subst hij
    rw [List.getElem?_eq_getElem (by omega), Option.some.injEq] at hi
    rw [hi] at hmem
    cases h _ hmem
  · exact h _ hmem

theorem inv_workerReturns {i : ℕ} (hinv : Inv hardware s)
    (h : step hardware s (.workerReturns i) = some s') : Inv hardware s' := by
  rw [step] at h
  split_ifs at h with hi
  obtain rfl := Option.some.inj h
  obtain ⟨hrunning, hstopped⟩ := hi
  have hne : s.threads ≠ [] := by
    intro hnil
    rw [hnil, List.getElem?_nil] at hrunning
    cases hrunning
  -- as many workers as before are in the list
  have hhealthy (h : s.Healthy hardware) :
      ({ s with threads := s.threads.set i .returned } : System).Healthy hardware := by
    cases hthread : s.serverThread <;> simp_all [System.Healthy]
  refine ⟨?_, fun hnot => absurd (hnot.symm.trans hstopped) (by decide)⟩
  have hphase := hinv.phase
  cases hc : s.caller <;> rw [hc] at hphase
  case idle =>
    simp only [Phase] at hphase ⊢
    split_ifs at hphase ⊢
    · exact hhealthy hphase
    · exact absurd hphase.2.2 hne
  case setRunning => exact hhealthy hphase
  case testImpl => exact ⟨hphase.1, hhealthy hphase.2⟩
  case stopContext => exact ⟨hphase.1, hhealthy hphase.2.1, hphase.2.2⟩
  case beginJoin => exact hphase
  case joining j stop =>
    refine ⟨hphase.1, hphase.2.1, ?_, joined_take_set hrunning hphase.2.2.2⟩
    rw [List.length_set]
    exact hphase.2.2.1
  case clearThreads =>
    cases hphase.2 .running (List.mem_of_getElem? hrunning)
  case clearImpl => exact absurd hphase.2 hne
  case joinServer => exact absurd hphase.2.2 hne
  case clearRunning => exact absurd hphase.2.2 hne

/-! ### Runs -/

/-- **One step keeps the invariant.** -/
theorem inv_step {a : Action} (hinv : Inv hardware s) (horderly : Orderly s a)
    (h : step hardware s a = some s') : Inv hardware s' := by
  cases a with
  | start =>
    simp only [step] at h
    split_ifs at h with hidle hrunning habsent
    · obtain rfl := Option.some.inj h
      exact hinv
    · obtain rfl := Option.some.inj h
      have hphase := hinv.phase
      rw [hidle] at hphase
      simp only [Phase, hrunning] at hphase
      exact ⟨hphase.2, hinv.serving⟩
  | stop =>
    simp only [step] at h
    split_ifs at h with hidle hrunning
    · obtain rfl := Option.some.inj h
      have hphase := hinv.phase
      rw [hidle] at hphase
      simp only [Phase, hrunning] at hphase
      exact ⟨⟨hrunning, hphase⟩, hinv.serving⟩
    · obtain rfl := Option.some.inj h
      exact hinv
  | caller => exact inv_call hinv horderly h
  | server => exact inv_serve hinv horderly h
  | serverThrows => exact inv_serveThrows hinv h
  | workerReturns i => exact inv_workerReturns hinv h

theorem numThreads_pos : 0 < numThreads hardware := by
  rw [numThreads]
  split_ifs with h
  · omega
  · exact Nat.two_pos

theorem serving_of_healthy (hserving : s.contextStopped = false → ∀ worker ∈ s.threads,
    worker = .running) (hhealthy : s.Healthy hardware) (hended : s.serverThread.ended = true) :
    s.Serving := by
  unfold System.Healthy at hhealthy
  cases hthread : s.serverThread <;> rw [hthread] at hended hhealthy
  case absent => exact hhealthy.elim
  case finished =>
    obtain ⟨-, haccepting, hstopped, hlength⟩ := hhealthy
    refine ⟨haccepting, hstopped, ?_, hserving hstopped⟩
    rw [← List.length_pos_iff, hlength]
    exact numThreads_pos
  all_goals cases hended

theorem not_serving_of_clean (hclean : s.Clean) : ¬ s.Serving := fun h => h.2.2.1 hclean.2.2

theorem consistent_of_inv (hinv : Inv hardware s) : Consistent s where
  joined := fun hidle hrunning => by
    have hphase := hinv.phase
    rw [hidle] at hphase
    simp only [Phase, hrunning] at hphase
    rw [hphase.2.2]
    exact fun _ h => absurd h List.not_mem_nil
  cleared := fun hclear => by
    have hphase := hinv.phase
    rw [hclear] at hphase
    exact hphase.2
  agrees := fun hended hsettled => by
    have hphase := hinv.phase
    cases hc : s.caller <;> rw [hc] at hphase hsettled
    case idle =>
      simp only [Phase] at hphase
      split_ifs at hphase with hrunning
      · exact iff_of_true hrunning (serving_of_healthy hinv.serving hphase hended)
      · exact iff_of_false hrunning (not_serving_of_clean hphase)
    case testImpl =>
      exact iff_of_true hphase.1 (serving_of_healthy hinv.serving hphase.2 hended)
    case stopContext =>
      exact iff_of_true hphase.1 (serving_of_healthy hinv.serving hphase.2.1 hended)
    all_goals cases hsettled

/-- **The flags agree with what the server does**, in every orderly run. -/
theorem consistent_of_reaches (h : Reaches (step hardware) Orderly System.initial s) :
    Consistent s := by
  have hinv : Inv hardware s :=
    h.invariant (fun _ _ _ hinv horderly hstep => inv_step hinv horderly hstep) inv_initial
  exact consistent_of_inv hinv

/-! ### Two runs -/

/-- A server with one worker is started and, once it serves, stopped. -/
def startedAndStopped : List Action :=
  [.start, .server, .caller, .server, .server, .server, .server] ++
  [.stop, .caller, .caller, .caller, .workerReturns 0] ++ List.replicate 6 .caller

theorem consistent_startedAndStopped :
    ∃ s, run (step 1) Orderly System.initial startedAndStopped = some s ∧
      s.caller = .idle ∧ s.contextStopped = true ∧ Consistent s := by
  have hrun : ∃ s, run (step 1) Orderly System.initial startedAndStopped = some s ∧
      s.caller = .idle ∧ s.contextStopped = true := ⟨_, rfl, rfl, rfl⟩
  obtain ⟨s, hrun, hidle, hstopped⟩ := hrun
  exact ⟨s, hrun, hidle, hstopped, consistent_of_reaches (reaches_of_run hrun)⟩

/-- The port is taken: the creation of the listener throws. -/
def portTaken : List Action := [.start, .caller, .serverThrows, .server]

/-- `isRunning` tells that a server runs which has no listener. -/
theorem not_consistent_portTaken :
    ¬ ∀ (hardware : ℤ) (s : System),
      Reaches (step hardware) (fun _ _ => True) System.initial s → Consistent s := by
  intro h
  have hend : ∃ s, run (step 4) (fun _ _ => True) System.initial portTaken = some s ∧
      s.serverThread.ended = true ∧ s.caller.settled = true ∧ s.running = true ∧
      s.accepting = false := ⟨_, rfl, rfl, rfl, rfl, rfl⟩
  obtain ⟨s, hrun, hended, hsettled, hrunning, haccepting⟩ := hend
  have hserving := ((h 4 s (reaches_of_run hrun)).agrees hended hsettled).mp hrunning
  exact absurd (haccepting.symm.trans hserving.1) (by decide)

end NetSentry.ServerLifecycle
