import NetSentry.Core.CollectorBase
import NetSentry.Lib.Transition

/-!
# When `start` and `stop` of a collector are safe

`stop` clears `running_` with `mutex_` locked, but joins the worker after it has unlocked it.

* `safe_of_reaches`: in every run in which no call finds `running_` cleared and the worker still to
  be joined, `worker_thread_` is assigned only when it is not joinable, at most one thread is in
  `collectLoop`, and none is when a `stop` returns that no `start` came after.
* `not_safe_overtakenStop`: a second `stop` returns at once, and the collector goes on.

`Inv` is what the steps keep: `mutex_` excludes the calls that lock it, one call at most has a
worker to join, and each call has what it relies on (`CallInv`).
-/

namespace NetSentry.CollectorBase

open Transition

variable {ι : Type*} [DecidableEq ι] {s t : CollectorBase ι}

/-! ### The statement -/

/-- What is expected of `start` and `stop`. -/
structure Safe (s : CollectorBase ι) : Prop where
  /-- `worker_thread_` is assigned only when it is not joinable. -/
  assigned : ∀ i thread, s.calls i = .startAssigning thread → s.workerThread = none
  single : ∀ thread thread', s.loops thread ≠ none → s.loops thread' ≠ none → thread = thread'
  /-- When a `stop` returns, and no `start` has set `running_` since that `stop` read it, no thread
  is in `collectLoop`. -/
  stopped : ∀ i starts, s.calls i = .stopReturning starts → s.starts = starts →
    ∀ thread, s.loops thread = none

/-- A call that finds `running_` cleared finds no worker that is still to be joined: `start` none
at all, and `stop` none that is still in `collectLoop`. -/
def CallSettled (s : CollectorBase ι) : Call → Prop
  | .startTesting => s.running = true ∨ s.workerThread = none
  | .stopTesting => s.running = true ∨ ∀ thread ∈ s.workerThread, s.loops thread = none
  | _ => True

/-- The step is not one of a call that comes between the two halves of a `stop`. -/
def Settled (s : CollectorBase ι) : Action ι → Prop
  | .advance i _ => CallSettled s (s.calls i)
  | _ => True

instance (s : CollectorBase ι) : ∀ call, Decidable (CallSettled s call)
  | .startTesting | .stopTesting => inferInstanceAs (Decidable (_ ∨ _))
  | .idle | .startLocking | .startSetting | .startSpawning | .startAssigning _ | .startUnlocking
  | .stopLocking | .stopClearing | .stopUnlocking _ | .joinTesting _ | .joining _ | .stopLeaving _
  | .stopReturning _ => .isTrue trivial

instance (s : CollectorBase ι) : ∀ a, Decidable (Settled s a)
  | .advance i _ => inferInstanceAs (Decidable (CallSettled s (s.calls i)))
  | .start _ | .stop _ | .iterate _ _ => .isTrue trivial

/-! ### The invariant -/

/-- The call has locked `mutex_`. -/
def Call.locked : Call → Bool
  | .startTesting | .startSetting | .startSpawning | .startAssigning _ | .startUnlocking
  | .stopTesting | .stopClearing | .stopUnlocking _ | .stopLeaving _ => true
  | _ => false

/-- The call is a `stop` that has cleared `running_`, and has the worker to join. -/
def Call.joins : Call → Bool
  | .stopUnlocking _ | .joinTesting _ | .joining _ => true
  | _ => false

/-- The call is a `start` that has set `running_`, and has `worker_thread_` to assign. -/
def Call.spawns : Call → Bool
  | .startSpawning | .startAssigning _ => true
  | _ => false

/-- What a call relies on. -/
def CallInv (s : CollectorBase ι) : Call → Prop
  | .startSetting => s.running = false ∧ s.workerThread = none
  | .startSpawning | .startAssigning _ => s.running = true ∧ s.workerThread = none
  | .stopClearing => s.running = true
  | .stopUnlocking starts | .joinTesting starts | .joining starts =>
    s.running = false ∧ s.workerThread ≠ none ∧ s.starts = starts
  | .stopLeaving starts | .stopReturning starts => starts ≤ s.starts ∧
    (s.starts = starts → s.running = false ∧ ∀ thread, s.loops thread = none)
  | _ => True

/-- **The invariant.** -/
structure Inv (s : CollectorBase ι) : Prop where
  calls : ∀ i, CallInv s (s.calls i)
  mutex : ∀ i, (s.calls i).locked = true → s.mutex = some i
  joiner : ∀ i j, (s.calls i).joins = true → (s.calls j).joins = true → i = j
  active : ∀ thread, s.loops thread ≠ none →
    s.workerThread = some thread ∨ ∃ i, s.calls i = .startAssigning thread
  spawned : s.running = true → s.workerThread ≠ none ∨ ∃ i, (s.calls i).spawns = true

omit [DecidableEq ι] in
theorem inv_create : Inv (create : CollectorBase ι) where
  calls := fun _ => trivial
  mutex := fun _ h => nomatch h
  joiner := fun _ _ h => nomatch h
  active := fun _ h => absurd rfl h
  spawned := fun h => nomatch h

omit [DecidableEq ι] in
/-- `mutex_` excludes the others. -/
theorem Inv.eq_of_locked (hinv : Inv s) {i j : ι} (hi : (s.calls i).locked = true)
    (hj : (s.calls j).locked = true) : j = i :=
  Option.some.inj ((hinv.mutex j hj).symm.trans (hinv.mutex i hi))

omit [DecidableEq ι] in
/-- While `mutex_` is locked by another call, no call assigns `worker_thread_`. -/
theorem Inv.active_of_locked (hinv : Inv s) {i : ι} (hi : (s.calls i).locked = true)
    (hnot : (s.calls i).spawns = false) {thread : ℕ} (hthread : s.loops thread ≠ none) :
    s.workerThread = some thread := by
  rcases hinv.active thread hthread with h | ⟨j, hj⟩
  · exact h
  · obtain rfl := hinv.eq_of_locked hi (by rw [hj]; rfl)
    rw [hj] at hnot
    cases hnot

omit [DecidableEq ι] in
/-- Once the worker has left `collectLoop`, no thread is in it while `running_` is cleared. -/
theorem Inv.loops_eq_none (hinv : Inv s) (hrunning : s.running = false)
    (hworker : ∀ thread ∈ s.workerThread, s.loops thread = none) (thread : ℕ) :
    s.loops thread = none := by
  by_contra hne
  rcases hinv.active thread hne with h | ⟨j, hj⟩
  · exact hne (hworker thread h)
  · have hcall := hinv.calls j
    rw [hj] at hcall
    exact absurd (hrunning.symm.trans hcall.1) (by decide)

/-- **One call goes on**: the invariant holds again when the call has what it relies on, and the
others still have. -/
theorem Inv.move (hinv : Inv s) {i : ι} {call : Call}
    (hcalls : t.calls = Function.update s.calls i call) (hcall : CallInv t call)
    (hothers : ∀ j, j ≠ i → CallInv t (s.calls j))
    (hlocked : call.locked = true → t.mutex = some i)
    (hmutex : ∀ j, j ≠ i → (s.calls j).locked = true → t.mutex = some j)
    (hjoiner : call.joins = true → ∀ j, j ≠ i → (s.calls j).joins = false)
    (hactive : ∀ thread, t.loops thread ≠ none → t.workerThread = some thread ∨
      call = .startAssigning thread ∨ ∃ j, j ≠ i ∧ s.calls j = .startAssigning thread)
    (hspawned : t.running = true → t.workerThread ≠ none ∨ call.spawns = true ∨
      ∃ j, j ≠ i ∧ (s.calls j).spawns = true) : Inv t := by
  have hself : t.calls i = call := by rw [hcalls, Function.update_self]
  have hother : ∀ j, j ≠ i → t.calls j = s.calls j := by
    intro j hj
    rw [hcalls, Function.update_of_ne hj]
  constructor
  case calls =>
    rw [hcalls]
    apply (Function.forall_update_iff s.calls fun _ call => CallInv t call).mpr
    exact ⟨hcall, hothers⟩
  case mutex =>
    rw [hcalls]
    apply (Function.forall_update_iff s.calls
      fun j call => call.locked = true → t.mutex = some j).mpr
    exact ⟨hlocked, hmutex⟩
  case joiner =>
    intro j k hjoins hkjoins
    by_cases hj : j = i <;> by_cases hk : k = i
    · rw [hj, hk]
    · rw [hj, hself] at hjoins
      rw [hother k hk, hjoiner hjoins k hk] at hkjoins
      cases hkjoins
    · rw [hk, hself] at hkjoins
      rw [hother j hj, hjoiner hkjoins j hj] at hjoins
      cases hjoins
    · rw [hother j hj] at hjoins
      rw [hother k hk] at hkjoins
      exact hinv.joiner j k hjoins hkjoins
  case active =>
    intro thread hthread
    rcases hactive thread hthread with h | h | ⟨j, hj, h⟩
    · exact .inl h
    · exact .inr ⟨i, hself.trans h⟩
    · exact .inr ⟨j, (hother j hj).trans h⟩
  case spawned =>
    intro hrunning
    rcases hspawned hrunning with h | h | ⟨j, hj, h⟩
    · exact .inl h
    · exact .inr ⟨i, by rw [hself]; exact h⟩
    · exact .inr ⟨j, by rw [hother j hj]; exact h⟩

/-! ### The calls -/

/-- A call that is not assigning `worker_thread_` goes on, and at most `mutex_` changes. -/
theorem Inv.setMutex (hinv : Inv s) {i : ι} {call : Call} {mutex : Option ι}
    (hcall : CallInv s call) (hspawns : (s.calls i).spawns = false)
    (hjoins : call.joins = true → (s.calls i).joins = true)
    (hlocked : call.locked = true → mutex = some i)
    (hmutex : ∀ j, j ≠ i → (s.calls j).locked = true → mutex = some j) :
    Inv ({ s with mutex := mutex }.goto i call) := by
  refine hinv.move rfl hcall (fun j _ => hinv.calls j) hlocked hmutex ?_ ?_ ?_
  · intro hcallJoins j hj
    by_contra hne
    exact hj (hinv.joiner j i (by simpa using hne) (hjoins hcallJoins))
  · intro thread hthread
    rcases hinv.active thread hthread with h | ⟨j, hj⟩
    · exact .inl h
    · refine .inr (.inr ⟨j, ?_, hj⟩)
      rintro rfl
      rw [hj] at hspawns
      cases hspawns
  · intro hrunning
    rcases hinv.spawned hrunning with h | ⟨j, hj⟩
    · exact .inl h
    · refine .inr (.inr ⟨j, ?_, hj⟩)
      rintro rfl
      exact absurd (hspawns.symm.trans hj) (by decide)

theorem Inv.goto (hinv : Inv s) {i : ι} {call : Call} (hcall : CallInv s call)
    (hspawns : (s.calls i).spawns = false)
    (hjoins : call.joins = true → (s.calls i).joins = true)
    (hlocked : call.locked = true → (s.calls i).locked = true) : Inv (s.goto i call) :=
  hinv.setMutex hcall hspawns hjoins (fun h => hinv.mutex i (hlocked h))
    (fun j _ h => hinv.mutex j h)

theorem Inv.lock (hinv : Inv s) {i : ι} {call : Call} (hcall : CallInv s call)
    (hspawns : (s.calls i).spawns = false) (hjoins : call.joins = false)
    (h : s.lock i call = some t) : Inv t := by
  rw [CollectorBase.lock] at h
  split_ifs at h with hfree
  obtain rfl := Option.some.inj h
  refine hinv.setMutex hcall hspawns (fun hcalls => ?_) (fun _ => rfl) (fun j _ hj => ?_)
  · exact absurd (hjoins.symm.trans hcalls) (by decide)
  · exact absurd (hfree.symm.trans (hinv.mutex j hj)) nofun

theorem Inv.unlock (hinv : Inv s) {i : ι} {call : Call} (hcall : CallInv s call)
    (hspawns : (s.calls i).spawns = false)
    (hjoins : call.joins = true → (s.calls i).joins = true)
    (hlocked : (s.calls i).locked = true) (hnot : call.locked = false) :
    Inv ({ s with mutex := none }.goto i call) := by
  refine hinv.setMutex hcall hspawns hjoins (fun h => ?_) (fun j hj h => ?_)
  · exact absurd (hnot.symm.trans h) (by decide)
  · exact absurd (hinv.eq_of_locked hlocked h) hj

omit [DecidableEq ι] in
/-- While one call has locked `mutex_`, the others are waiting for it, joining a worker or
returning from `stop`: what they rely on is to be shown for these alone. -/
theorem Inv.others_of_locked (hinv : Inv s) {i : ι} (hi : (s.calls i).locked = true)
    (hjoins : ∀ j starts, (s.calls j).joins = true → CallInv s (.joining starts) →
      CallInv t (.joining starts))
    (hreturning : ∀ starts, CallInv s (.stopReturning starts) → CallInv t (.stopReturning starts))
    (j : ι) (hj : j ≠ i) : CallInv t (s.calls j) := by
  have hcall := hinv.calls j
  have hcallJoins := hjoins j
  have hexcluded (h : (s.calls j).locked = true) : False := hj (hinv.eq_of_locked hi h)
  cases hc : s.calls j <;> rw [hc] at hcall hcallJoins hexcluded
  case joinTesting starts => exact hcallJoins starts rfl hcall
  case joining starts => exact hcallJoins starts rfl hcall
  case stopReturning starts => exact hreturning starts hcall
  -- the other calls have locked it, or rely on nothing
  all_goals first | exact (hexcluded rfl).elim | trivial

/-- `start` sets `running_`. -/
theorem inv_startSetting (hinv : Inv s) {i : ι} (hi : s.calls i = .startSetting) :
    Inv ({ s with running := true, starts := s.starts + 1 }.goto i .startSpawning) := by
  have hlocked : (s.calls i).locked = true := by rw [hi]; rfl
  obtain ⟨-, hworker⟩ : CallInv s .startSetting := hi ▸ hinv.calls i
  refine hinv.move rfl ⟨rfl, hworker⟩ (hinv.others_of_locked hlocked ?_ ?_)
    (fun _ => hinv.mutex i hlocked) (fun j _ h => hinv.mutex j h) nofun ?_
    (fun _ => .inr (.inl rfl))
  · intro _ _ _ hcall
    exact absurd hworker hcall.2.1
  · -- this `start` comes after every `stop` that is returning
    intro starts hcall
    have hlt : starts < s.starts + 1 := Nat.lt_succ_of_le hcall.1
    exact ⟨Nat.le_of_lt hlt, fun heq => absurd heq (Nat.ne_of_gt hlt)⟩
  · intro thread hthread
    exact .inl (hinv.active_of_locked hlocked (by rw [hi]; rfl) hthread)

/-- `start` creates the thread. -/
theorem inv_startSpawning (hinv : Inv s) {i : ι} (hi : s.calls i = .startSpawning) (fresh : ℕ) :
    Inv ((s.setLoop fresh (some .testing)).goto i (.startAssigning fresh)) := by
  have hlocked : (s.calls i).locked = true := by rw [hi]; rfl
  obtain ⟨hrunning, hworker⟩ : CallInv s .startSpawning := hi ▸ hinv.calls i
  refine hinv.move rfl ⟨hrunning, hworker⟩ (hinv.others_of_locked hlocked ?_ ?_)
    (fun _ => hinv.mutex i hlocked) (fun j _ h => hinv.mutex j h) nofun ?_
    (fun _ => .inr (.inl rfl))
  · exact fun _ _ _ hcall => hcall
  · intro starts hcall
    refine ⟨hcall.1, fun heq => ?_⟩
    exact absurd (hrunning.symm.trans (hcall.2 heq).1) (by decide)
  · intro thread hthread
    by_cases hfresh : thread = fresh
    · exact .inr (.inl (by rw [hfresh]))
    · rcases hinv.active thread (by simpa [setLoop, goto, hfresh] using hthread) with h | ⟨j, hj⟩
      · exact .inl h
      · refine .inr (.inr ⟨j, ?_, hj⟩)
        rintro rfl
        cases hi.symm.trans hj

/-- `start` assigns `worker_thread_`. -/
theorem inv_startAssigning (hinv : Inv s) {i : ι} {thread : ℕ}
    (hi : s.calls i = .startAssigning thread) :
    Inv ({ s with workerThread := some thread }.goto i .startUnlocking) := by
  have hlocked : (s.calls i).locked = true := by rw [hi]; rfl
  obtain ⟨hrunning, hworker⟩ : CallInv s (.startAssigning thread) := hi ▸ hinv.calls i
  refine hinv.move rfl trivial (hinv.others_of_locked hlocked ?_ ?_)
    (fun _ => hinv.mutex i hlocked) (fun j _ h => hinv.mutex j h) nofun ?_ (fun _ => .inl nofun)
  · intro _ _ _ hcall
    exact absurd hworker hcall.2.1
  · exact fun _ hcall => hcall
  · intro thread' hthread
    rcases hinv.active thread' hthread with h | ⟨j, hj⟩
    · exact absurd (hworker.symm.trans h) nofun
    · -- only the call itself assigns
      obtain rfl := hinv.eq_of_locked hlocked (by rw [hj]; rfl)
      obtain rfl := Call.startAssigning.inj (hi.symm.trans hj)
      exact .inl rfl

/-- `stop` clears `running_`. -/
theorem inv_stopClearing (hinv : Inv s) {i : ι} (hi : s.calls i = .stopClearing) :
    Inv ({ s with running := false }.goto i (.stopUnlocking s.starts)) := by
  have hlocked : (s.calls i).locked = true := by rw [hi]; rfl
  have hrunning : s.running = true := (hi ▸ hinv.calls i : CallInv s .stopClearing)
  have hworker : s.workerThread ≠ none := by
    rcases hinv.spawned hrunning with h | ⟨j, hj⟩
    · exact h
    · have hjlocked : (s.calls j).locked = true := by
        cases hc : s.calls j <;> rw [hc] at hj <;> first | rfl | cases hj
      obtain rfl := hinv.eq_of_locked hlocked hjlocked
      rw [hi] at hj
      cases hj
  -- a call that has a worker to join would have cleared `running_`
  have hjoins : ∀ j, (s.calls j).joins = false := by
    intro j
    have hcall := hinv.calls j
    cases hc : s.calls j <;> rw [hc] at hcall <;>
      first | rfl | exact absurd (hrunning.symm.trans hcall.1) (by decide)
  refine hinv.move rfl ⟨rfl, hworker, rfl⟩ (hinv.others_of_locked hlocked ?_ ?_)
    (fun _ => hinv.mutex i hlocked) (fun j _ h => hinv.mutex j h) (fun _ j _ => hjoins j) ?_ nofun
  · intro j _ hcallJoins
    exact absurd ((hjoins j).symm.trans hcallJoins) (by decide)
  · exact fun _ hcall => ⟨hcall.1, fun heq => ⟨rfl, (hcall.2 heq).2⟩⟩
  · intro thread hthread
    exact .inl (hinv.active_of_locked hlocked (by rw [hi]; rfl) hthread)

/-- `stop` has joined the worker. -/
theorem inv_joining (hinv : Inv s) {i : ι} {starts thread : ℕ} (hi : s.calls i = .joining starts)
    (hworker : s.workerThread = some thread) (hended : s.loops thread = none) :
    Inv ({ s with workerThread := none }.goto i (.stopReturning starts)) := by
  obtain ⟨hrunning, -, hstarts⟩ : CallInv s (.joining starts) := hi ▸ hinv.calls i
  have hloops := hinv.loops_eq_none hrunning (by rw [hworker]; rintro _ ⟨⟩; exact hended)
  refine hinv.move rfl ⟨Nat.le_of_eq hstarts.symm, fun _ => ⟨hrunning, hloops⟩⟩ ?_ nofun
    (fun j _ h => hinv.mutex j h) nofun (fun thread' h => absurd (hloops thread') h) ?_
  · intro j hj
    have hcall := hinv.calls j
    have hjoins (h : (s.calls j).joins = true) : False :=
      hj (hinv.joiner j i h (by rw [hi]; rfl))
    cases hc : s.calls j <;> rw [hc] at hcall hjoins
    case startSetting => exact ⟨hrunning, rfl⟩
    case startSpawning => exact ⟨hcall.1, rfl⟩
    case startAssigning => exact ⟨hcall.1, rfl⟩
    all_goals first | exact (hjoins rfl).elim | exact hcall
  · intro h
    exact absurd (hrunning.symm.trans h) (by decide)

theorem inv_advance (hinv : Inv s) {i : ι} {fresh : ℕ} {call : Call} (hi : s.calls i = call)
    (hsettled : CallSettled s call) (h : s.advance i fresh call = some t) : Inv t := by
  have hcall := hinv.calls i
  rw [hi] at hcall
  have hspawns : call.spawns = false → (s.calls i).spawns = false := fun h => hi ▸ h
  cases call with
  | idle => cases h
  | startLocking =>
    have htesting : CallInv s .startTesting := trivial
    exact hinv.lock htesting (hspawns rfl) rfl h
  | startTesting =>
    obtain rfl := Option.some.inj h
    split_ifs with hrunning
    · exact hinv.goto trivial (hspawns rfl) nofun (fun _ => by rw [hi]; rfl)
    · -- the step is settled: the last worker has been joined
      have hfalse : s.running = false := by simpa using hrunning
      exact hinv.goto ⟨hfalse, hsettled.resolve_left hrunning⟩ (hspawns rfl) nofun
        (fun _ => by rw [hi]; rfl)
  | startSetting =>
    obtain rfl := Option.some.inj h
    exact inv_startSetting hinv hi
  | startSpawning =>
    rw [CollectorBase.advance] at h
    split_ifs at h
    obtain rfl := Option.some.inj h
    exact inv_startSpawning hinv hi fresh
  | startAssigning thread =>
    rw [CollectorBase.advance] at h
    split_ifs at h
    obtain rfl := Option.some.inj h
    exact inv_startAssigning hinv hi
  | startUnlocking =>
    obtain rfl := Option.some.inj h
    exact hinv.unlock trivial (hspawns rfl) nofun (by rw [hi]; rfl) rfl
  | stopLocking =>
    have htesting : CallInv s .stopTesting := trivial
    exact hinv.lock htesting (hspawns rfl) rfl h
  | stopTesting =>
    obtain rfl := Option.some.inj h
    split_ifs with hrunning
    · exact hinv.goto hrunning (hspawns rfl) nofun (fun _ => by rw [hi]; rfl)
    · -- the step is settled: the last worker has left `collectLoop`
      have hfalse : s.running = false := by simpa using hrunning
      have hloops := hinv.loops_eq_none hfalse (hsettled.resolve_left hrunning)
      exact hinv.goto ⟨Nat.le_refl _, fun _ => ⟨hfalse, hloops⟩⟩ (hspawns rfl) nofun
        (fun _ => by rw [hi]; rfl)
  | stopClearing =>
    obtain rfl := Option.some.inj h
    exact inv_stopClearing hinv hi
  | stopUnlocking starts =>
    obtain rfl := Option.some.inj h
    exact hinv.unlock hcall (hspawns rfl) (fun _ => by rw [hi]; rfl) (by rw [hi]; rfl) rfl
  | joinTesting starts =>
    -- no other call joins the worker, so that it is still joinable
    obtain rfl := Option.some.inj h
    rw [if_neg hcall.2.1]
    exact hinv.goto hcall (hspawns rfl) (fun _ => by rw [hi]; rfl) nofun
  | joining starts =>
    simp only [CollectorBase.advance] at h
    split at h
    · next hnone => exact absurd hnone hcall.2.1
    · next thread hthread =>
      split_ifs at h with hended
      obtain rfl := Option.some.inj h
      exact inv_joining hinv hi hthread hended
  | stopLeaving starts =>
    obtain rfl := Option.some.inj h
    exact hinv.unlock hcall (hspawns rfl) nofun (by rw [hi]; rfl) rfl
  | stopReturning starts =>
    obtain rfl := Option.some.inj h
    exact hinv.goto trivial (hspawns rfl) nofun nofun

/-! ### The threads in `collectLoop` -/

omit [DecidableEq ι] in
/-- A thread that is in `collectLoop` goes on, or ends. -/
theorem Inv.setLoop (hinv : Inv s) {thread : ℕ} (hthread : s.loops thread ≠ none)
    (loop : Option Loop) : Inv (s.setLoop thread loop) := by
  have hloops : ∀ thread', (s.setLoop thread loop).loops thread' ≠ none →
      s.loops thread' ≠ none := by
    intro thread' h
    by_cases heq : thread' = thread
    · rw [heq]
      exact hthread
    · simpa [CollectorBase.setLoop, heq] using h
  refine { hinv with calls := ?_, active := fun thread' h => hinv.active thread' (hloops _ h) }
  intro i
  have hcall := hinv.calls i
  show CallInv (s.setLoop thread loop) (s.calls i)
  cases hc : s.calls i <;> rw [hc] at hcall
  case stopLeaving => exact ⟨hcall.1, fun heq => absurd ((hcall.2 heq).2 thread) hthread⟩
  case stopReturning => exact ⟨hcall.1, fun heq => absurd ((hcall.2 heq).2 thread) hthread⟩
  all_goals exact hcall

omit [DecidableEq ι] in
theorem inv_iterate (hinv : Inv s) {thread : ℕ} {intervalOver : Bool}
    (h : s.iterate thread intervalOver = some t) : Inv t := by
  rw [iterate] at h
  split at h
  · cases h
  all_goals
    next hloop =>
      obtain rfl := Option.some.inj h
      exact hinv.setLoop (by rw [hloop]; nofun) _

/-! ### Runs -/

/-- **One step keeps the invariant.** -/
theorem inv_step {a : Action ι} (hinv : Inv s) (hsettled : Settled s a) (h : step s a = some t) :
    Inv t := by
  cases a with
  | start i =>
    simp only [step] at h
    split_ifs at h with hi
    obtain rfl := Option.some.inj h
    exact hinv.goto trivial (by rw [hi]; rfl) nofun nofun
  | stop i =>
    simp only [step] at h
    split_ifs at h with hi
    obtain rfl := Option.some.inj h
    exact hinv.goto trivial (by rw [hi]; rfl) nofun nofun
  | advance i fresh => exact inv_advance hinv rfl hsettled h
  | iterate thread intervalOver => exact inv_iterate hinv h

omit [DecidableEq ι] in
theorem safe_of_inv (hinv : Inv s) : Safe s where
  assigned := fun i thread hi => (hi ▸ hinv.calls i : CallInv s (.startAssigning thread)).2
  single := fun thread thread' hthread hthread' => by
    rcases hinv.active thread hthread with h | ⟨i, hi⟩ <;>
      rcases hinv.active thread' hthread' with h' | ⟨j, hj⟩
    · exact Option.some.inj (h.symm.trans h')
    · exact absurd (h.symm.trans (hj ▸ hinv.calls j : CallInv s (.startAssigning thread')).2) nofun
    · exact absurd (h'.symm.trans (hi ▸ hinv.calls i : CallInv s (.startAssigning thread)).2) nofun
    · have hilocked : (s.calls i).locked = true := by rw [hi]; rfl
      obtain rfl := hinv.eq_of_locked hilocked (by rw [hj]; rfl)
      exact Call.startAssigning.inj (hi.symm.trans hj)
  stopped := fun i starts hi heq =>
    ((hi ▸ hinv.calls i : CallInv s (.stopReturning starts)).2 heq).2

/-- **`start` and `stop` are safe**, in every run in which no call comes between the two halves of
a `stop`. -/
theorem safe_of_reaches (h : Reaches step Settled create s) : Safe s := by
  have hkeep : ∀ (s : CollectorBase ι) a t, Inv s → Settled s a → step s a = some t → Inv t :=
    fun _ _ _ hinv hsettled hstep => inv_step hinv hsettled hstep
  exact safe_of_inv (h.invariant hkeep inv_create)

/-! ### Two runs -/

/-- A collector is started, collects once, and is stopped. -/
def collectedOnce : List (Action Unit) :=
  [.start ()] ++ List.replicate 6 (.advance () 0) ++
  [.iterate 0 false, .iterate 0 false, .iterate 0 false] ++
  [.stop ()] ++ List.replicate 4 (.advance () 0) ++
  [.iterate 0 false, .iterate 0 false] ++ List.replicate 2 (.advance () 0)

theorem safe_collectedOnce :
    ∃ s, run step Settled create collectedOnce = some s ∧ s.calls () = .stopReturning 1 ∧
      s.starts = 1 ∧ Safe s := by
  have hrun : ∃ s, run step Settled create collectedOnce = some s ∧
      s.calls () = .stopReturning 1 ∧ s.starts = 1 := ⟨_, rfl, rfl, rfl⟩
  obtain ⟨s, hrun, hcall, hstarts⟩ := hrun
  exact ⟨s, hrun, hcall, hstarts, safe_of_reaches (reaches_of_run hrun)⟩

/-- One thread starts the collector and stops it; before it has joined the worker, another thread
calls `stop`. -/
def overtakenStop : List (Action Bool) :=
  [.start true] ++ List.replicate 6 (.advance true 0) ++
  [.stop true] ++ List.replicate 4 (.advance true 0) ++
  [.stop false] ++ List.replicate 3 (.advance false 0)

/-- The second `stop` returns while the worker is still in `collectLoop`. -/
theorem not_safe_overtakenStop :
    ¬ ∀ (ι : Type) (_ : DecidableEq ι) (s : CollectorBase ι),
      Reaches step (fun _ _ => True) create s → Safe s := by
  intro h
  have hend : ∃ s, run step (fun _ _ => True) create overtakenStop = some s ∧
      s.calls false = .stopReturning 1 ∧ s.starts = 1 ∧ s.loops 0 = some .testing :=
    ⟨_, rfl, rfl, rfl, rfl⟩
  obtain ⟨s, hrun, hcall, hstarts, hloop⟩ := hend
  have hnone := (h Bool inferInstance s (reaches_of_run hrun)).stopped false 1 hcall hstarts 0
  rw [hloop] at hnone
  cases hnone

end NetSentry.CollectorBase
