import Mathlib.Algebra.BigOperators.Fin
import Mathlib.Algebra.Order.BigOperators.Group.Finset
import NetSentry.Core.Equiv.CollectorBase
import NetSentry.Lib.Progress

/-!
# A collector that is stopped comes to rest

Once `running_` is cleared and no `start` is in progress, the calls of `stop` and the worker come to
an end after a number of steps that is bounded by the number of calls: then every call has returned,
`mutex_` is free, no thread is in `collectLoop` and none is left to be joined (`stop_ends`).

* `kept_step`: a call that has locked `mutex_` is on its way to unlock it, and a worker that is to
  be joined has a call that joins it.
* `stopped_step`: what holds of a stopped collector is kept.
* `potential_step`: a stopped collector lowers its potential with every step.
-/

namespace NetSentry.CollectorBase

open Transition

variable {ι : Type*} [DecidableEq ι] {s t : CollectorBase ι}

/-! ### Who is to go on -/

/-- There is a call to unlock `mutex_`, and one to join a worker that has been told to stop. -/
structure Kept (s : CollectorBase ι) : Prop where
  held : ∀ i, s.mutex = some i → (s.calls i).locked = true
  joined : s.running = false → s.workerThread ≠ none → ∃ i, (s.calls i).joins = true

omit [DecidableEq ι] in
theorem kept_create : Kept (create : CollectorBase ι) where
  held := fun _ h => absurd h (Option.some_ne_none _).symm
  joined := fun _ h => absurd rfl h

/-- A call that goes on with the mutex that it has, or without one. -/
theorem held_update (h : Kept s) {i : ι} {call : Call}
    (hlocked : (s.calls i).locked = true → call.locked = true) :
    ∀ j, s.mutex = some j → (Function.update s.calls i call j).locked = true := by
  intro j hj
  by_cases hji : j = i
  · subst hji
    rw [Function.update_self]
    exact hlocked (h.held j hj)
  · rw [Function.update_of_ne hji]
    exact h.held j hj

/-- A call that goes on, and joins where it did. -/
theorem joined_update {i : ι} {call : Call} (hjoins : (s.calls i).joins = true → call.joins = true)
    (h : ∃ j, (s.calls j).joins = true) :
    ∃ j, (Function.update s.calls i call j).joins = true := by
  obtain ⟨j, hj⟩ := h
  by_cases hji : j = i
  · subst hji
    exact ⟨j, by rw [Function.update_self]; exact hjoins hj⟩
  · exact ⟨j, by rw [Function.update_of_ne hji]; exact hj⟩

theorem Kept.goto (h : Kept s) {i : ι} {call : Call}
    (hlocked : (s.calls i).locked = true → call.locked = true)
    (hjoins : (s.calls i).joins = true → call.joins = true) : Kept (s.goto i call) where
  held := held_update h hlocked
  joined := fun hrunning hworker => joined_update hjoins (h.joined hrunning hworker)

/-- A call locks the mutex. -/
theorem Kept.lock (h : Kept s) {i : ι} {call : Call} (hlocked : call.locked = true)
    (hjoins : (s.calls i).joins = false) (hlock : s.lock i call = some t) : Kept t := by
  rw [CollectorBase.lock] at hlock
  split_ifs at hlock
  obtain rfl := Option.some.inj hlock
  refine ⟨?_, ?_⟩
  · intro j hj
    obtain rfl := Option.some.inj hj
    show (Function.update s.calls i call i).locked = true
    rw [Function.update_self]
    exact hlocked
  · intro hrunning hworker
    refine joined_update (fun hi => ?_) (h.joined hrunning hworker)
    rw [hjoins] at hi
    cases hi

/-- A call unlocks the mutex. -/
theorem Kept.unlock (h : Kept s) {i : ι} {call : Call}
    (hjoins : (s.calls i).joins = true → call.joins = true) :
    Kept ({ s with mutex := none }.goto i call) where
  held := fun _ hj => absurd hj (Option.some_ne_none _).symm
  joined := fun hrunning hworker => joined_update hjoins (h.joined hrunning hworker)

theorem kept_advance (h : Kept s) (hinv : Inv s) {i : ι} {fresh : ℕ} {call : Call}
    (hi : s.calls i = call) (hstep : s.advance i fresh call = some t) : Kept t := by
  have hcall := hinv.calls i
  rw [hi] at hcall
  -- what the call has locked and joins before the step
  have hwas : (s.calls i).locked = call.locked ∧ (s.calls i).joins = call.joins := by
    rw [hi]
    exact ⟨rfl, rfl⟩
  cases call with
  | idle => cases hstep
  | startLocking => exact h.lock rfl hwas.2 hstep
  | startTesting =>
    obtain rfl := Option.some.inj hstep
    apply h.goto
    · intro _
      split_ifs <;> rfl
    · rw [hwas.2]
      exact fun hjoins => Bool.noConfusion hjoins
  | startSetting =>
    obtain rfl := Option.some.inj hstep
    exact ⟨held_update h fun _ => rfl, fun hrunning => Bool.noConfusion hrunning⟩
  | startSpawning =>
    rw [CollectorBase.advance] at hstep
    split_ifs at hstep
    obtain rfl := Option.some.inj hstep
    refine ⟨held_update h fun _ => rfl, fun hrunning => ?_⟩
    exact absurd (hrunning.symm.trans hcall.1) Bool.false_ne_true
  | startAssigning thread =>
    rw [CollectorBase.advance] at hstep
    split_ifs at hstep
    obtain rfl := Option.some.inj hstep
    refine ⟨held_update h fun _ => rfl, fun hrunning => ?_⟩
    exact absurd (hrunning.symm.trans hcall.1) Bool.false_ne_true
  | startUnlocking =>
    obtain rfl := Option.some.inj hstep
    apply h.unlock
    rw [hwas.2]
    exact fun hjoins => Bool.noConfusion hjoins
  | stopLocking => exact h.lock rfl hwas.2 hstep
  | stopTesting =>
    obtain rfl := Option.some.inj hstep
    apply h.goto
    · intro _
      split_ifs <;> rfl
    · rw [hwas.2]
      exact fun hjoins => Bool.noConfusion hjoins
  | stopClearing =>
    obtain rfl := Option.some.inj hstep
    refine ⟨held_update h fun _ => rfl, fun _ _ => ⟨i, ?_⟩⟩
    show (Function.update s.calls i _ i).joins = true
    rw [Function.update_self]
    rfl
  | stopUnlocking starts =>
    obtain rfl := Option.some.inj hstep
    exact h.unlock fun _ => rfl
  | joinTesting starts =>
    obtain rfl := Option.some.inj hstep
    rw [if_neg hcall.2.1]
    apply h.goto
    · rw [hwas.1]
      exact fun hlocked => Bool.noConfusion hlocked
    · exact fun _ => rfl
  | joining starts =>
    simp only [CollectorBase.advance] at hstep
    split at hstep
    · next hnone => exact absurd hnone hcall.2.1
    · split_ifs at hstep
      obtain rfl := Option.some.inj hstep
      refine ⟨held_update h ?_, fun _ hworker => absurd rfl hworker⟩
      rw [hwas.1]
      exact fun hlocked => Bool.noConfusion hlocked
  | stopLeaving starts =>
    obtain rfl := Option.some.inj hstep
    apply h.unlock
    rw [hwas.2]
    exact fun hjoins => Bool.noConfusion hjoins
  | stopReturning starts =>
    obtain rfl := Option.some.inj hstep
    apply h.goto
    · rw [hwas.1]
      exact fun hlocked => Bool.noConfusion hlocked
    · rw [hwas.2]
      exact fun hjoins => Bool.noConfusion hjoins

omit [DecidableEq ι] in
/-- What a thread in `collectLoop` does to the collector. -/
theorem iterate_cases {thread : ℕ} {intervalOver : Bool}
    (h : s.iterate thread intervalOver = some t) :
    (∃ loop, s.loops thread = some loop) ∧ ∃ loop, t = s.setLoop thread loop := by
  rw [iterate] at h
  split at h
  · cases h
  all_goals
    next hloop =>
      exact ⟨⟨_, hloop⟩, _, (Option.some.inj h).symm⟩

/-- **One step** keeps somebody who is to go on. -/
theorem kept_step {a : Action ι} (h : Kept s) (hinv : Inv s) (hstep : step s a = some t) :
    Kept t := by
  cases a with
  | start i =>
    simp only [step] at hstep
    split_ifs at hstep with hi
    obtain rfl := Option.some.inj hstep
    apply h.goto <;> rw [hi] <;> exact fun hidle => Bool.noConfusion hidle
  | stop i =>
    simp only [step] at hstep
    split_ifs at hstep with hi
    obtain rfl := Option.some.inj hstep
    apply h.goto <;> rw [hi] <;> exact fun hidle => Bool.noConfusion hidle
  | advance i fresh => exact kept_advance h hinv rfl hstep
  | iterate thread intervalOver =>
    obtain ⟨-, loop, rfl⟩ := iterate_cases hstep
    exact ⟨h.held, h.joined⟩

/-! ### A stopped collector -/

/-- A step of a call that is in progress, or of a thread in `collectLoop`. -/
def Action.isOwn : Action ι → Bool
  | .start _ | .stop _ => false
  | .advance _ _ | .iterate _ _ => true

/-- The collector is left alone. -/
def Alone (s : CollectorBase ι) (a : Action ι) : Prop := Settled s a ∧ a.isOwn = true

instance (s : CollectorBase ι) (a : Action ι) : Decidable (Alone s a) :=
  inferInstanceAs (Decidable (_ ∧ _))

/-- The call is one of `start`. -/
def Call.isStart : Call → Bool
  | .startLocking | .startTesting | .startSetting | .startSpawning | .startAssigning _
  | .startUnlocking => true
  | _ => false

/-- `running_` is cleared, and no `start` is going to set it. -/
structure Stopped (s : CollectorBase ι) : Prop where
  inv : Inv s
  kept : Kept s
  running : s.running = false
  noStart : ∀ i, (s.calls i).isStart = false

/-- The steps that a call has still to take. -/
def Call.potential : Call → ℕ
  | .stopLocking => 7
  | .stopTesting => 6
  | .stopClearing => 5
  | .stopUnlocking _ => 4
  | .joinTesting _ => 3
  | .joining _ => 2
  | .stopLeaving _ => 2
  | .stopReturning _ => 1
  | _ => 0

/-- The steps that a thread in `collectLoop` has still to take once `running_` is cleared. -/
def Loop.potential : Loop → ℕ
  | .testing => 1
  | .collecting => 3
  | .sleeping => 2

/-- The steps that the worker has still to take. -/
def workerPotential (s : CollectorBase ι) : ℕ :=
  s.workerThread.elim 0 fun thread => (s.loops thread).elim 0 Loop.potential

theorem call_potential_le (call : Call) : call.potential ≤ 7 := by
  cases call <;> simp [Call.potential]

omit [DecidableEq ι] in
theorem workerPotential_le (s : CollectorBase ι) : s.workerPotential ≤ 3 := by
  rw [workerPotential]
  cases s.workerThread with
  | none => exact Nat.zero_le 3
  | some thread =>
    show (s.loops thread).elim 0 Loop.potential ≤ 3
    cases s.loops thread with
    | none => exact Nat.zero_le 3
    | some loop => cases loop <;> decide

omit [DecidableEq ι] in
/-- Only the worker is in `collectLoop`. -/
theorem Stopped.workerThread (h : Stopped s) {thread : ℕ} (hthread : s.loops thread ≠ none) :
    s.workerThread = some thread := by
  rcases h.inv.active thread hthread with hworker | ⟨i, hi⟩
  · exact hworker
  · have hstart := h.noStart i
    rw [hi] at hstart
    cases hstart

/-- **A call of a stopped collector** gets closer to its end. -/
theorem advance_stopped (h : Stopped s) {i : ι} {fresh : ℕ}
    (hstep : s.advance i fresh (s.calls i) = some t) :
    t.running = false ∧ t.loops = s.loops ∧
      (t.workerThread = s.workerThread ∨ t.workerThread = none) ∧
      ∃ call : Call, t.calls = Function.update s.calls i call ∧ call.isStart = false ∧
        call.potential < (s.calls i).potential := by
  have hstart := h.noStart i
  cases hi : s.calls i with
  | startLocking => rw [hi] at hstart; cases hstart
  | startTesting => rw [hi] at hstart; cases hstart
  | startSetting => rw [hi] at hstart; cases hstart
  | startSpawning => rw [hi] at hstart; cases hstart
  | startAssigning thread => rw [hi] at hstart; cases hstart
  | startUnlocking => rw [hi] at hstart; cases hstart
  | idle =>
    rw [hi] at hstep
    cases hstep
  | stopLocking =>
    rw [hi, CollectorBase.advance, CollectorBase.lock] at hstep
    split_ifs at hstep
    obtain rfl := Option.some.inj hstep
    exact ⟨h.running, rfl, .inl rfl, .stopTesting, rfl, rfl, by decide⟩
  | stopTesting =>
    rw [hi] at hstep
    obtain rfl := Option.some.inj hstep
    rw [h.running, if_neg Bool.false_ne_true]
    exact ⟨h.running, rfl, .inl rfl, .stopLeaving s.starts, rfl, rfl, (by decide : 2 < 6)⟩
  | stopClearing =>
    rw [hi] at hstep
    obtain rfl := Option.some.inj hstep
    exact ⟨rfl, rfl, .inl rfl, .stopUnlocking s.starts, rfl, rfl, Nat.lt_succ_self 4⟩
  | stopUnlocking starts =>
    rw [hi] at hstep
    obtain rfl := Option.some.inj hstep
    exact ⟨h.running, rfl, .inl rfl, .joinTesting starts, rfl, rfl, Nat.lt_succ_self 3⟩
  | joinTesting starts =>
    rw [hi] at hstep
    obtain rfl := Option.some.inj hstep
    refine ⟨h.running, rfl, .inl rfl, _, rfl, ?_, ?_⟩
    · split_ifs <;> rfl
    · split_ifs
      · exact (by decide : 1 < 3)
      · exact Nat.lt_succ_self 2
  | joining starts =>
    rw [hi] at hstep
    simp only [CollectorBase.advance] at hstep
    split at hstep
    · obtain rfl := Option.some.inj hstep
      exact ⟨h.running, rfl, .inl rfl, .idle, rfl, rfl, Nat.two_pos⟩
    · split_ifs at hstep
      obtain rfl := Option.some.inj hstep
      exact ⟨h.running, rfl, .inr rfl, .stopReturning starts, rfl, rfl, Nat.lt_succ_self 1⟩
  | stopLeaving starts =>
    rw [hi] at hstep
    obtain rfl := Option.some.inj hstep
    exact ⟨h.running, rfl, .inl rfl, .stopReturning starts, rfl, rfl, Nat.lt_succ_self 1⟩
  | stopReturning starts =>
    rw [hi] at hstep
    obtain rfl := Option.some.inj hstep
    exact ⟨h.running, rfl, .inl rfl, .idle, rfl, rfl, Nat.one_pos⟩

theorem stopped_step {a : Action ι} (h : Stopped s) (ha : Alone s a)
    (hstep : step s a = some t) : Stopped t := by
  have hinv := inv_step h.inv ha.1 hstep
  have hkept := kept_step h.kept h.inv hstep
  cases a with
  | start i => cases ha.2
  | stop i => cases ha.2
  | advance i fresh =>
    obtain ⟨hrunning, -, -, call, hcalls, hstart, -⟩ := advance_stopped h hstep
    refine ⟨hinv, hkept, hrunning, ?_⟩
    rw [hcalls]
    exact (Function.forall_update_iff s.calls fun _ call => call.isStart = false).mpr
      ⟨hstart, fun j _ => h.noStart j⟩
  | iterate thread intervalOver =>
    obtain ⟨-, loop, rfl⟩ := iterate_cases hstep
    exact ⟨hinv, hkept, h.running, h.noStart⟩

omit [DecidableEq ι] in
/-- A thread that finds `running_` cleared gets closer to its end. -/
theorem iterate_stopped (hrunning : s.running = false) {thread : ℕ} {intervalOver : Bool}
    (h : s.iterate thread intervalOver = some t) :
    ∃ loop next, s.loops thread = some loop ∧ t = s.setLoop thread next ∧
      next.elim 0 Loop.potential < loop.potential := by
  rw [iterate] at h
  cases hloop : s.loops thread with
  | none =>
    rw [hloop] at h
    cases h
  | some loop =>
    rw [hloop] at h
    cases loop with
    | testing =>
      obtain rfl := Option.some.inj h
      rw [hrunning]
      exact ⟨_, _, rfl, rfl, Nat.one_pos⟩
    | collecting =>
      obtain rfl := Option.some.inj h
      exact ⟨_, _, rfl, rfl, Nat.lt_succ_self 2⟩
    | sleeping =>
      obtain rfl := Option.some.inj h
      rw [hrunning, if_neg fun hcond => Bool.false_ne_true hcond.1]
      exact ⟨_, _, rfl, rfl, Nat.lt_succ_self 1⟩

section Fintype

variable [Fintype ι]

/-- A bound for the steps of a stopped collector that is left alone. -/
def potential (s : CollectorBase ι) : ℕ := ∑ i, (s.calls i).potential + s.workerPotential

omit [DecidableEq ι] in
theorem potential_le (s : CollectorBase ι) : s.potential ≤ 7 * Fintype.card ι + 3 := by
  have hcalls : ∑ i, (s.calls i).potential ≤ ∑ _ : ι, 7 :=
    Finset.sum_le_sum fun i _ => call_potential_le (s.calls i)
  rw [Finset.sum_const, Finset.card_univ, smul_eq_mul, Nat.mul_comm] at hcalls
  exact Nat.add_le_add hcalls s.workerPotential_le

/-- **Every step lowers the potential.** -/
theorem potential_step {a : Action ι} (h : Stopped s) (ha : Alone s a)
    (hstep : step s a = some t) : t.potential < s.potential := by
  cases a with
  | start i => cases ha.2
  | stop i => cases ha.2
  | advance i fresh =>
    obtain ⟨-, hloops, hworker, call, hcalls, -, hless⟩ := advance_stopped h hstep
    have hsum := sum_update_add Call.potential s.calls i call
    have hle : t.workerPotential ≤ s.workerPotential := by
      rw [workerPotential, workerPotential, hloops]
      rcases hworker with hsame | hnone
      · rw [hsame]
      · rw [hnone]
        exact Nat.zero_le _
    rw [potential, potential, hcalls]
    omega
  | iterate thread intervalOver =>
    obtain ⟨loop, next, hloop, rfl, hless⟩ := iterate_stopped h.running hstep
    have hworker := h.workerThread (hloop ▸ Option.some_ne_none loop)
    have hafter : (s.setLoop thread next).workerPotential = next.elim 0 Loop.potential := by
      rw [workerPotential, CollectorBase.setLoop]
      dsimp only
      rw [hworker, Option.elim_some, Function.update_self]
    have hbefore : s.workerPotential = loop.potential := by
      rw [workerPotential, hworker, Option.elim_some, hloop, Option.elim_some]
    show _ + _ < _ + _
    rw [hafter, hbefore]
    exact Nat.add_lt_add_left hless _

end Fintype

/-! ### At rest -/

/-- Nothing is left to be done. -/
structure AtRest (s : CollectorBase ι) : Prop where
  calls : ∀ i, s.calls i = .idle
  mutex : s.mutex = none
  workerThread : s.workerThread = none
  loops : ∀ thread, s.loops thread = none

/-- A thread in `collectLoop` could go on. -/
theorem loops_of_halted (h : Halted step Alone s) (thread : ℕ) : s.loops thread = none := by
  by_contra hne
  obtain ⟨loop, hloop⟩ := Option.ne_none_iff_exists'.mp hne
  have hstuck := h (.iterate thread true) ⟨trivial, rfl⟩
  simp only [step, iterate, hloop] at hstuck
  cases loop <;> cases hstuck

/-- A call could go on, unless it waits for the mutex. -/
theorem call_of_halted (h : Stopped s) (hhalted : Halted step Alone s) (i : ι) :
    s.calls i = .idle ∨ s.calls i = .stopLocking ∧ s.mutex ≠ none := by
  have hstart := h.noStart i
  have hcall := h.inv.calls i
  have hstuck : CallSettled s (s.calls i) → s.advance i 0 (s.calls i) = none := by
    intro hsettled
    exact hhalted (.advance i 0) ⟨hsettled, rfl⟩
  cases hi : s.calls i with
  | idle => exact .inl rfl
  | stopLocking =>
    refine .inr ⟨rfl, fun hfree => ?_⟩
    rw [hi, CollectorBase.advance, CollectorBase.lock, if_pos hfree] at hstuck
    cases hstuck trivial
  | stopTesting =>
    rw [hi] at hstuck
    -- a call that reads `running_` may go on once the worker has ended
    cases hstuck (.inr fun thread _ => loops_of_halted hhalted thread)
  | joining starts =>
    rw [hi] at hcall hstuck
    obtain ⟨thread, hthread⟩ := Option.ne_none_iff_exists'.mp hcall.2.1
    simp only [CollectorBase.advance, hthread, loops_of_halted hhalted thread, if_true] at hstuck
    cases hstuck trivial
  | stopClearing => rw [hi] at hstuck; cases hstuck trivial
  | stopUnlocking starts => rw [hi] at hstuck; cases hstuck trivial
  | joinTesting starts => rw [hi] at hstuck; cases hstuck trivial
  | stopLeaving starts => rw [hi] at hstuck; cases hstuck trivial
  | stopReturning starts => rw [hi] at hstuck; cases hstuck trivial
  -- no `start` is in progress
  | startLocking => rw [hi] at hstart; cases hstart
  | startTesting => rw [hi] at hstart; cases hstart
  | startSetting => rw [hi] at hstart; cases hstart
  | startSpawning => rw [hi] at hstart; cases hstart
  | startAssigning thread => rw [hi] at hstart; cases hstart
  | startUnlocking => rw [hi] at hstart; cases hstart

/-- **A stopped collector that has halted is at rest.** -/
theorem atRest_of_halted (h : Stopped s) (hhalted : Halted step Alone s) : AtRest s := by
  have hcall := call_of_halted h hhalted
  -- nobody is left to unlock the mutex, so that nobody has locked it
  have hmutex : s.mutex = none := by
    by_contra hne
    obtain ⟨i, hi⟩ := Option.ne_none_iff_exists'.mp hne
    have hlocked := h.kept.held i hi
    rcases hcall i with hidle | ⟨hwaits, -⟩
    · rw [hidle] at hlocked
      cases hlocked
    · rw [hwaits] at hlocked
      cases hlocked
  have hidle : ∀ i, s.calls i = .idle := fun i => (hcall i).resolve_right fun hwaits =>
    hwaits.2 hmutex
  refine ⟨hidle, hmutex, ?_, loops_of_halted hhalted⟩
  by_contra hworker
  obtain ⟨i, hjoins⟩ := h.kept.joined h.running hworker
  rw [hidle i] at hjoins
  cases hjoins

/-! ### Runs that come to an end -/

/-- What the steps of a run keep from the beginning on. -/
theorem kept_of_reaches (h : Reaches step Settled create s) : Inv s ∧ Kept s := by
  have hkeep : ∀ (s : CollectorBase ι) a t, Inv s ∧ Kept s → Settled s a → step s a = some t →
      Inv t ∧ Kept t := by
    rintro s a t ⟨hinv, hkept⟩ hsettled hstep
    exact ⟨inv_step hinv hsettled hstep, kept_step hkept hinv hstep⟩
  exact h.invariant hkeep ⟨inv_create, kept_create⟩

/-- **A collector that is stopped comes to rest.**  Once `running_` is cleared and no `start` is in
progress, a collector that is left alone can be run until it halts; it takes at most seven steps for
each call and three for the worker; and where it has halted, every `stop` has returned, the mutex is
free, the worker has been joined, and no thread is in `collectLoop`. -/
theorem stop_ends [Fintype ι] (h : Reaches step Settled create s) (hrunning : s.running = false)
    (hstart : ∀ i, (s.calls i).isStart = false) :
    (∃ as t, Path step Alone s as t ∧ Halted step Alone t) ∧
    ∀ as t, Path step Alone s as t →
      as.length ≤ 7 * Fintype.card ι + 3 ∧ (Halted step Alone t → AtRest t) := by
  obtain ⟨hinv, hkept⟩ := kept_of_reaches h
  have hstopped : Stopped s := ⟨hinv, hkept, hrunning, hstart⟩
  have hkeep : ∀ (s : CollectorBase ι) a t, Stopped s → Alone s a → step s a = some t →
      Stopped t := fun _ _ _ hs ha hstep => stopped_step hs ha hstep
  have hless : ∀ (s : CollectorBase ι) a t, Stopped s → Alone s a → step s a = some t →
      t.potential < s.potential := fun _ _ _ hs ha hstep => potential_step hs ha hstep
  constructor
  · obtain ⟨as, t, hpath, hhalted, -⟩ := exists_halted hkeep hless hstopped
    exact ⟨as, t, hpath, hhalted⟩
  · intro as t hpath
    constructor
    · have hpay : ∀ (s : CollectorBase ι) a t, Stopped s → Alone s a → step s a = some t →
          t.potential + 1 ≤ s.potential + 0 := hless
      have hcost := hpath.cost_le hkeep hpay hstopped
      simp only [List.map_const', List.sum_replicate, smul_eq_mul, Nat.mul_one, Nat.mul_zero]
        at hcost
      have hbound := s.potential_le
      omega
    · exact atRest_of_halted (hpath.reaches.invariant hkeep hstopped)

/-- A collector is started, collects, and is told to stop while it waits. -/
def toldToStop : List (Action Unit) := collectedOnce.take 15

theorem stop_ends_toldToStop :
    ∃ s, run step Settled create toldToStop = some s ∧ s.calls () = .joinTesting 1 ∧
      s.loops 0 = some .sleeping ∧ ∃ as t, Path step Alone s as t ∧ as.length ≤ 10 ∧ AtRest t := by
  obtain ⟨s, hs, hrunning, hcall, hloop⟩ : ∃ s, run step Settled create toldToStop = some s ∧
      s.running = false ∧ s.calls () = .joinTesting 1 ∧ s.loops 0 = some .sleeping :=
    ⟨_, rfl, rfl, rfl, rfl⟩
  have hstart : ∀ i, (s.calls i).isStart = false := by
    intro i
    rw [show s.calls i = .joinTesting 1 from hcall]
    rfl
  obtain ⟨⟨as, t, hpath, hhalted⟩, hruns⟩ := stop_ends (reaches_of_run hs) hrunning hstart
  obtain ⟨hlength, hrest⟩ := hruns as t hpath
  exact ⟨s, hs, hcall, hloop, as, t, hpath, hlength, hrest hhalted⟩

end NetSentry.CollectorBase
