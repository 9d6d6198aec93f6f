import NetSentry.Core.Equiv.CircularBuffer
import NetSentry.Core.SharedBuffer
import NetSentry.Lib.Linearizable

/-!
# `CircularBuffer` under concurrent calls

The calls of any number of threads, step by step, look as if each had been made at once, although
`size`, `empty` and `full` read `size_` without the mutex.

* `histories_linearizable`: every history is linearizable with respect to the bounded queue, no two
  threads are between locking and unlocking, and no call gets stuck.
* `Tracks`: while a thread has locked the mutex, the buffer is a sequential one in which that
  thread's call has been made halfway.

A push takes effect when it adds to `size_` (`Mirrors.adding`) or finds no room, a pop when it
subtracts from `size_` (`Mirrors.subtracting`) or finds no item, and each of the others when it
reads `size_` (`Mirrors.reading`).
-/

namespace NetSentry.SharedBuffer

open Transition Linearizability CircularBuffer

universe u

variable {ι : Type*} {α : Type u} [DecidableEq ι] {capacity : ℕ}
  {s t : SharedBuffer ι α capacity}

/-! ### The specification and the histories -/

/-- The operation on a sequential buffer. -/
def Method.op : Method α → Op α
  | .push item => .push item
  | .pop => .pop
  | .size => .size
  | .empty => .empty
  | .full => .full

/-- The calls of a queue of at most `capacity` items. -/
def BoundedMethod (capacity : ℕ) (q : List α) (m : Method α) (result : Output (Option α))
    (q' : List α) : Prop :=
  result = (BoundedQueue.step capacity q m.op).1.map some ∧
    q' = (BoundedQueue.step capacity q m.op).2

/-- What an action shows. -/
def shown (s : SharedBuffer ι α capacity) :
    Action ι α → List (Event ι (Method α) (Output (Option α)))
  | .call i method => [.call i method]
  | .advance i =>
    match s.threads i with
    | .returning result => [.answer i result]
    | _ => []

/-! ### The relation to the atomic queue -/

/-- The thread has locked the mutex. -/
def Thread.locked : Thread α → Bool
  | .pushTesting _ | .storing _ | .movingTail _ | .adding _ | .popTesting | .taking | .movingHead _
  | .subtracting _ | .unlocking _ => true
  | _ => false

/-- How far a thread is as one of the atomic queue. -/
def Thread.phase : Thread α → Phase (Method α) (Output (Option α))
  | .idle => .ready
  | .pushLocking item | .pushTesting item | .storing item | .movingTail item | .adding item =>
    .called (.push item)
  | .popLocking | .popTesting | .taking | .movingHead _ | .subtracting _ => .called .pop
  | .sizeReading => .called .size
  | .emptyReading => .called .empty
  | .fullReading => .called .full
  | .unlocking result | .returning result => .done result

/-- The slots and the indices are those of the sequential buffer. -/
def Quiet (s : SharedBuffer ι α capacity) (b : CircularBuffer α capacity) : Prop :=
  s.buffer = b.buffer ∧ s.head = b.head ∧ s.tail = b.tail

/-- How the slots and the indices differ from those of the sequential buffer while a thread is
between locking and unlocking: of its call on the sequential buffer, as much has been made as the
thread is far. -/
def Halfway (s : SharedBuffer ι α capacity) (b : CircularBuffer α capacity) : Thread α → Prop
  | .storing _ => Quiet s b ∧ b.size ≠ capacity
  | .movingTail item =>
    b.size ≠ capacity ∧ s.buffer = (b.push item).2.buffer ∧ s.head = b.head ∧ s.tail = b.tail
  | .adding item => b.size ≠ capacity ∧ Quiet s (b.push item).2
  | .taking => Quiet s b ∧ b.size ≠ 0
  | .movingHead item => ∃ b', b.pop = .ok (some item, b') ∧ s.buffer = b'.buffer ∧
    s.head = b.head ∧ s.tail = b.tail
  | .subtracting item => ∃ b', b.pop = .ok (some item, b') ∧ Quiet s b'
  | _ => Quiet s b

/-- The buffer is the sequential one, or one that a thread has changed halfway; `size_` is changed
when the call takes effect. -/
structure Tracks (s : SharedBuffer ι α capacity) (b : CircularBuffer α capacity) : Prop where
  size : s.size = b.size
  free : s.mutex = none → Quiet s b
  held : ∀ i, s.mutex = some i → Halfway s b (s.threads i)

/-- The buffer and its threads are as far as the atomic queue. -/
structure Mirrors (s : SharedBuffer ι α capacity)
    (c : Object ι (Method α) (Output (Option α)) (List α)) : Prop where
  mutex : ∀ i, (s.threads i).locked = true ↔ s.mutex = some i
  tracks : ∃ b, Represents b c.state ∧ Tracks s b
  phases : ∀ i, (s.threads i).phase = c.phases i

/-! ### A thread goes on -/

variable {c : Object ι (Method α) (Output (Option α)) (List α)} {i : ι} {thread : Thread α}
  {b : CircularBuffer α capacity}

theorem Mirrors.phases_update (h : Mirrors s c) (j : ι) :
    (Function.update s.threads i thread j).phase
      = Function.update c.phases i thread.phase j := by
  by_cases hj : j = i
  · subst hj
    rw [Function.update_self, Function.update_self]
  · rw [Function.update_of_ne hj, Function.update_of_ne hj]
    exact h.phases j

/-- **Between locking and unlocking**: no other thread is. -/
theorem Mirrors.inside (h : Mirrors s c) (hmutex : s.mutex = some i)
    (t : SharedBuffer ι α capacity) (thread : Thread α)
    (hthreads : t.threads = s.threads) (hsame : t.mutex = s.mutex) (hlocked : thread.locked = true)
    {q : List α} (hb : Represents b q) (hsize : t.size = b.size) (hhalfway : Halfway t b thread) :
    Mirrors (t.goto i thread) ⟨Function.update c.phases i thread.phase, q⟩ where
  mutex := by
    rw [goto, hthreads, hsame]
    apply (Function.forall_update_iff s.threads
      fun j thread => thread.locked = true ↔ s.mutex = some j).mpr
    exact ⟨iff_of_true hlocked hmutex, fun j _ => h.mutex j⟩
  tracks := by
    refine ⟨b, hb, hsize, ?_, ?_⟩
    · intro hfree
      exact absurd (hmutex.symm.trans (hsame.symm.trans hfree)) (Option.some_ne_none i)
    · intro j hj
      obtain rfl := Option.some.inj (hmutex.symm.trans (hsame.symm.trans hj))
      show Halfway _ b (Function.update t.threads i thread i)
      rw [Function.update_self]
      exact hhalfway
  phases := by
    rw [goto, hthreads]
    exact h.phases_update

/-- The mutex is locked. -/
theorem Mirrors.lock (h : Mirrors s c) (thread : Thread α) (hlock : s.lock i thread = some t)
    (hlocked : thread.locked = true) (hquiet : ∀ b, Quiet t b → Halfway t b thread) :
    Mirrors t ⟨Function.update c.phases i thread.phase, c.state⟩ := by
  rw [SharedBuffer.lock] at hlock
  split_ifs at hlock with hfree
  obtain rfl := Option.some.inj hlock
  obtain ⟨b, hb, htracks⟩ := h.tracks
  -- nobody was between locking and unlocking, so that the buffer is the sequential one
  have hb' := htracks.free hfree
  refine ⟨?_, ⟨b, hb, htracks.size, fun hnone => absurd hnone (Option.some_ne_none i), ?_⟩,
    h.phases_update⟩
  · apply (Function.forall_update_iff s.threads
      fun j thread => thread.locked = true ↔ some i = some j).mpr
    refine ⟨iff_of_true hlocked rfl, fun j hj => ?_⟩
    refine iff_of_false (fun hother => ?_) fun hi => hj (Option.some.inj hi).symm
    exact absurd ((h.mutex j).mp hother) (hfree ▸ (Option.some_ne_none j).symm)
  · intro j hj
    obtain rfl := Option.some.inj hj
    show Halfway _ b (Function.update s.threads i thread i)
    rw [Function.update_self]
    exact hquiet b hb'

/-- The mutex is unlocked. -/
theorem Mirrors.unlock (h : Mirrors s c) (hmutex : s.mutex = some i)
    (hquiet : ∀ b, Halfway s b (s.threads i) → Quiet s b) (hlocked : thread.locked = false) :
    Mirrors ({ s with mutex := none }.goto i thread)
      ⟨Function.update c.phases i thread.phase, c.state⟩ := by
  obtain ⟨b, hb, htracks⟩ := h.tracks
  have hb' := hquiet b (htracks.held i hmutex)
  refine ⟨?_, ⟨b, hb, htracks.size, fun _ => hb', ?_⟩,
    h.phases_update⟩
  · apply (Function.forall_update_iff s.threads
      fun j thread => thread.locked = true ↔ none = some j).mpr
    refine ⟨iff_of_false (by rw [hlocked]; exact Bool.false_ne_true)
      (Option.some_ne_none i).symm, fun j hj => ?_⟩
    refine iff_of_false (fun hother => ?_) (Option.some_ne_none j).symm
    exact hj (Option.some.inj (hmutex.symm.trans ((h.mutex j).mp hother))).symm
  · intro j hj
    exact absurd hj (Option.some_ne_none j).symm

/-- **Without the mutex.** -/
theorem Mirrors.outside (h : Mirrors s c) (hbefore : (s.threads i).locked = false)
    (hafter : thread.locked = false) :
    Mirrors (s.goto i thread) ⟨Function.update c.phases i thread.phase, c.state⟩ := by
  obtain ⟨b, hb, htracks⟩ := h.tracks
  refine ⟨?_, ⟨b, hb, htracks.size, htracks.free, ?_⟩, h.phases_update⟩
  · apply (Function.forall_update_iff s.threads
      fun j thread => thread.locked = true ↔ s.mutex = some j).mpr
    refine ⟨?_, fun j _ => h.mutex j⟩
    rw [hafter, ← h.mutex i, hbefore]
  · intro j hj
    -- it is another thread that has locked the mutex
    have hji : j ≠ i := by
      rintro rfl
      rw [(h.mutex j).mpr hj] at hbefore
      cases hbefore
    have hheld := htracks.held j hj
    show Halfway (s.goto i thread) b (Function.update s.threads i thread j)
    rw [Function.update_of_ne hji]
    exact hheld

/-! ### The sequential calls -/

theorem push_of_full {item : α} (h : b.size = capacity) : b.push item = (false, b) := by
  rw [CircularBuffer.push, dif_pos h]

/-- What a push does where there is room. -/
theorem push_of_room (item : α) (h : b.size ≠ capacity) :
    b.tail < capacity ∧ (b.push item).1 = true ∧
      (b.push item).2.buffer = b.buffer.setIfInBounds b.tail (some item) ∧
      (b.push item).2.head = b.head ∧ (b.push item).2.tail = (b.tail + 1) % capacity ∧
      (b.push item).2.size = b.size + 1 := by
  have hle := b.size_le
  have hlt : b.tail < capacity := b.tail_eq ▸ Nat.mod_lt _ (by omega)
  rw [CircularBuffer.push, dif_neg h]
  refine ⟨hlt, rfl, ?_, rfl, rfl, rfl⟩
  ext1
  simp [Vector.set, Vector.setIfInBounds, Array.setIfInBounds, hlt]

/-- What a pop does where there is an item. -/
theorem pop_of_item {item : Option α} (h : b.size ≠ 0)
    (hitem : b.buffer.toList[b.head]? = some item) :
    ∃ b', b.pop = .ok (some item, b') ∧ b'.buffer = b.buffer.setIfInBounds b.head none := by
  rw [pop, dif_neg h, Checked.readAt_of_getElem? hitem]
  exact ⟨_, rfl, rfl⟩

theorem eq_of_pop {item : Option α} {b' : CircularBuffer α capacity}
    (h : b.pop = .ok (some item, b')) :
    b.size ≠ 0 ∧ b'.head = (b.head + 1) % capacity ∧ b'.tail = b.tail ∧
      b'.size = b.size - 1 := by
  rw [pop] at h
  split_ifs at h with hempty
  · cases h
  · cases hread : Checked.readAt b.buffer.toList b.head with
    | error fault =>
      rw [hread] at h
      cases h
    | ok x =>
      rw [hread] at h
      obtain ⟨-, rfl⟩ := Prod.mk.inj (Except.ok.inj h)
      exact ⟨hempty, rfl, rfl, rfl⟩

/-! ### Steps -/

omit [DecidableEq ι] in
theorem Mirrors.phase_eq (h : Mirrors s c) (hthread : s.threads i = thread) :
    c.phases i = thread.phase :=
  hthread ▸ (h.phases i).symm

omit [DecidableEq ι] in
/-- What is known of a thread that is between locking and unlocking. -/
theorem Mirrors.halfway (h : Mirrors s c) (hthread : s.threads i = thread)
    (hlocked : thread.locked = true) :
    s.mutex = some i ∧ ∃ b, Represents b c.state ∧ s.size = b.size ∧ Halfway s b thread := by
  have hmutex := (h.mutex i).mp (hthread ▸ hlocked)
  obtain ⟨b, hb, htracks⟩ := h.tracks
  exact ⟨hmutex, b, hb, htracks.size, hthread ▸ htracks.held i hmutex⟩

section Push

variable {item : α}

/-- A push that finds no room takes effect. -/
theorem Mirrors.pushTesting (h : Mirrors s c) (hthread : s.threads i = .pushTesting item) :
    Follows (BoundedMethod capacity) Mirrors
      (s.goto i (if s.size = capacity then .unlocking (.flag false) else .storing item)) c [] := by
  obtain ⟨hlock, b, hb, hsize, hquiet⟩ := h.halfway hthread rfl
  by_cases hfull : s.size = capacity
  · rw [if_pos hfull]
    -- a push without room leaves the sequential buffer as it is
    have hpush := represents_push hb item
    rw [push_of_full (hsize ▸ hfull)] at hpush
    have hspec : BoundedMethod capacity c.state (.push item) (.flag false)
        (BoundedQueue.push capacity c.state item).2 :=
      ⟨congrArg Output.flag hpush.1, rfl⟩
    exact .commit (h.phase_eq hthread) hspec
      (h.inside hlock s (.unlocking (.flag false)) rfl rfl rfl hpush.2 hsize hquiet)
  · rw [if_neg hfull]
    exact .silent (h.phase_eq hthread)
      (h.inside hlock s (.storing item) rfl rfl rfl hb hsize ⟨hquiet, hsize ▸ hfull⟩)

theorem Mirrors.storing (h : Mirrors s c) (hthread : s.threads i = .storing item) :
    s.tail < capacity ∧ Follows (BoundedMethod capacity) Mirrors
      ({ s with buffer := s.buffer.setIfInBounds s.tail (some item) }.goto i (.movingTail item))
      c [] := by
  obtain ⟨hlock, b, hb, hsize, ⟨hbuffer, hhead, htail⟩, hroom⟩ := h.halfway hthread rfl
  obtain ⟨hlt, -, hbuffer', -⟩ := push_of_room item hroom
  have hstored : s.buffer.setIfInBounds s.tail (some item) = (b.push item).2.buffer := by
    rw [hbuffer', hbuffer, htail]
  refine ⟨htail ▸ hlt, .silent (h.phase_eq hthread) ?_⟩
  exact h.inside hlock { s with buffer := s.buffer.setIfInBounds s.tail (some item) }
    (.movingTail item) rfl rfl rfl hb hsize ⟨hroom, hstored, hhead, htail⟩

theorem Mirrors.movingTail (h : Mirrors s c) (hthread : s.threads i = .movingTail item) :
    0 < capacity ∧ Follows (BoundedMethod capacity) Mirrors
      ({ s with tail := (s.tail + 1) % capacity }.goto i (.adding item)) c [] := by
  obtain ⟨hlock, b, hb, hsize, hroom, hbuffer, hhead, htail⟩ := h.halfway hthread rfl
  obtain ⟨hlt, -, -, hhead', htail', -⟩ := push_of_room item hroom
  have hmoved : (s.tail + 1) % capacity = (b.push item).2.tail := by rw [htail', htail]
  refine ⟨Nat.zero_lt_of_lt hlt, .silent (h.phase_eq hthread) ?_⟩
  exact h.inside hlock { s with tail := (s.tail + 1) % capacity } (.adding item) rfl rfl rfl hb
    hsize ⟨hroom, hbuffer, hhead.trans hhead'.symm, hmoved⟩

/-- A push takes effect when it counts its item. -/
theorem Mirrors.adding (h : Mirrors s c) (hthread : s.threads i = .adding item) :
    Follows (BoundedMethod capacity) Mirrors
      ({ s with size := s.size + 1 }.goto i (.unlocking (.flag true))) c [] := by
  obtain ⟨hlock, b, hb, hsize, hroom, hquiet⟩ := h.halfway hthread rfl
  obtain ⟨-, htaken, -, -, -, hsize'⟩ := push_of_room item hroom
  obtain ⟨hflag, hpush⟩ := represents_push hb item
  have hspec : BoundedMethod capacity c.state (.push item) (.flag true)
      (BoundedQueue.push capacity c.state item).2 :=
    ⟨congrArg Output.flag (htaken.symm.trans hflag), rfl⟩
  have hcounted : s.size + 1 = (b.push item).2.size := by rw [hsize', hsize]
  exact .commit (h.phase_eq hthread) hspec
    (h.inside hlock { s with size := s.size + 1 } (.unlocking (.flag true)) rfl rfl rfl hpush
      hcounted hquiet)

end Push

section Pop

variable {item : Option α}

/-- A pop that finds no item takes effect. -/
theorem Mirrors.popTesting (h : Mirrors s c) (hthread : s.threads i = .popTesting) :
    Follows (BoundedMethod capacity) Mirrors
      (s.goto i (if s.size = 0 then .unlocking (.item none) else .taking)) c [] := by
  obtain ⟨hlock, b, hb, hsize, hquiet⟩ := h.halfway hthread rfl
  by_cases hempty : s.size = 0
  · rw [if_pos hempty]
    have hnil : c.state = [] := List.length_eq_zero_iff.mp (hb.size_eq ▸ hsize ▸ hempty)
    have hspec : BoundedMethod capacity c.state .pop (.item none) c.state := by
      rw [hnil]
      exact ⟨rfl, rfl⟩
    exact .commit (h.phase_eq hthread) hspec
      (h.inside hlock s (.unlocking (.item none)) rfl rfl rfl hb hsize hquiet)
  · rw [if_neg hempty]
    exact .silent (h.phase_eq hthread)
      (h.inside hlock s .taking rfl rfl rfl hb hsize ⟨hquiet, hsize ▸ hempty⟩)

theorem Mirrors.taking (h : Mirrors s c) (hthread : s.threads i = .taking) :
    ∃ item, s.buffer.toList[s.head]? = some item ∧ Follows (BoundedMethod capacity) Mirrors
      ({ s with buffer := s.buffer.setIfInBounds s.head none }.goto i (.movingHead item)) c [] := by
  obtain ⟨hlock, b, hb, hsize, ⟨hbuffer, hhead, htail⟩, hsome⟩ := h.halfway hthread rfl
  have hlt : b.head < capacity := hb.head_lt (by have := b.size_le; omega)
  have hitem : b.buffer.toList[b.head]? = some b.buffer[b.head] := by simp [hlt]
  obtain ⟨b', hpop, hbuffer'⟩ := pop_of_item hsome hitem
  have htaken : s.buffer.setIfInBounds s.head none = b'.buffer := by
    rw [hbuffer', hbuffer, hhead]
  refine ⟨b.buffer[b.head], by rw [hbuffer, hhead, hitem], .silent (h.phase_eq hthread) ?_⟩
  exact h.inside hlock { s with buffer := s.buffer.setIfInBounds s.head none }
    (.movingHead b.buffer[b.head]) rfl rfl rfl hb hsize ⟨b', hpop, htaken, hhead, htail⟩

theorem Mirrors.movingHead (h : Mirrors s c) (hthread : s.threads i = .movingHead item) :
    0 < capacity ∧ Follows (BoundedMethod capacity) Mirrors
      ({ s with head := (s.head + 1) % capacity }.goto i (.subtracting item)) c [] := by
  obtain ⟨hlock, b, hb, hsize, b', hpop, hbuffer, hhead, htail⟩ := h.halfway hthread rfl
  obtain ⟨hsome, hhead', htail', -⟩ := eq_of_pop hpop
  have hmoved : (s.head + 1) % capacity = b'.head := by rw [hhead', hhead]
  refine ⟨by have := b.size_le; omega, .silent (h.phase_eq hthread) ?_⟩
  exact h.inside hlock { s with head := (s.head + 1) % capacity } (.subtracting item) rfl rfl rfl
    hb hsize ⟨b', hpop, hbuffer, hmoved, htail.trans htail'.symm⟩

/-- A pop takes effect when it counts off its item. -/
theorem Mirrors.subtracting (h : Mirrors s c) (hthread : s.threads i = .subtracting item) :
    Follows (BoundedMethod capacity) Mirrors
      ({ s with size := s.size - 1 }.goto i (.unlocking (.item (some item)))) c [] := by
  obtain ⟨hlock, b, hb, hsize, b', hpop, hquiet⟩ := h.halfway hthread rfl
  obtain ⟨-, -, -, hsize'⟩ := eq_of_pop hpop
  -- the item that has been taken is the one that the atomic queue gives
  obtain ⟨b'', hpop', hb''⟩ := represents_pop hb
  obtain ⟨hitem, rfl⟩ := Prod.mk.inj (Except.ok.inj (hpop.symm.trans hpop'))
  have hspec : BoundedMethod capacity c.state .pop (.item (some item)) c.state.tail :=
    ⟨congrArg Output.item hitem, rfl⟩
  have hcounted : s.size - 1 = b'.size := by rw [hsize', hsize]
  exact .commit (h.phase_eq hthread) hspec
    (h.inside hlock { s with size := s.size - 1 } (.unlocking (.item (some item))) rfl rfl rfl hb''
      hcounted hquiet)

end Pop

/-- The other calls take effect when they read `size_`, between any steps of a push or a pop. -/
theorem Mirrors.reading (h : Mirrors s c) (hthread : s.threads i = thread)
    (hlocked : thread.locked = false) {method : Method α} (hcalled : thread.phase = .called method)
    {result : Output (Option α)}
    (hspec : s.size = c.state.length → BoundedMethod capacity c.state method result c.state) :
    Follows (BoundedMethod capacity) Mirrors (s.goto i (.returning result)) c [] := by
  obtain ⟨b, hb, htracks⟩ := h.tracks
  refine .commit ((h.phase_eq hthread).trans hcalled) (hspec (htracks.size.trans hb.size_eq)) ?_
  exact h.outside (hthread ▸ hlocked) rfl

/-- **One step of a thread**: the atomic queue does as much. -/
theorem follows_advance (h : Mirrors s c) (hstep : s.advance i (s.threads i) = some t) :
    Follows (BoundedMethod capacity) Mirrors t c (shown s (.advance i)) := by
  rw [shown]
  cases hthread : s.threads i with
  | idle =>
    rw [hthread] at hstep
    cases hstep
  | pushLocking item =>
    rw [hthread] at hstep
    exact .silent (h.phase_eq hthread) (h.lock (.pushTesting item) hstep rfl fun _ => id)
  | pushTesting item =>
    rw [hthread] at hstep
    exact Option.some.inj hstep ▸ h.pushTesting hthread
  | storing item =>
    obtain ⟨hlt, hfollows⟩ := h.storing hthread
    rw [hthread, advance, if_pos hlt] at hstep
    exact Option.some.inj hstep ▸ hfollows
  | movingTail item =>
    obtain ⟨hpos, hfollows⟩ := h.movingTail hthread
    rw [hthread, advance, if_pos hpos] at hstep
    exact Option.some.inj hstep ▸ hfollows
  | adding item =>
    rw [hthread] at hstep
    exact Option.some.inj hstep ▸ h.adding hthread
  | popLocking =>
    rw [hthread] at hstep
    exact .silent (h.phase_eq hthread) (h.lock .popTesting hstep rfl fun _ => id)
  | popTesting =>
    rw [hthread] at hstep
    exact Option.some.inj hstep ▸ h.popTesting hthread
  | taking =>
    obtain ⟨item, hitem, hfollows⟩ := h.taking hthread
    rw [hthread, advance, hitem] at hstep
    exact Option.some.inj hstep ▸ hfollows
  | movingHead item =>
    obtain ⟨hpos, hfollows⟩ := h.movingHead hthread
    rw [hthread, advance, if_pos hpos] at hstep
    exact Option.some.inj hstep ▸ hfollows
  | subtracting item =>
    rw [hthread] at hstep
    exact Option.some.inj hstep ▸ h.subtracting hthread
  | unlocking result =>
    obtain ⟨hmutex, -⟩ := h.halfway hthread rfl
    rw [hthread] at hstep
    obtain rfl := Option.some.inj hstep
    exact .silent (h.phase_eq hthread)
      (h.unlock hmutex (fun _ => by rw [hthread]; exact id) rfl)
  | sizeReading =>
    rw [hthread] at hstep
    obtain rfl := Option.some.inj hstep
    exact h.reading hthread rfl rfl fun hsize => ⟨congrArg Output.count hsize, rfl⟩
  | emptyReading =>
    rw [hthread] at hstep
    obtain rfl := Option.some.inj hstep
    refine h.reading hthread rfl rfl fun hsize => ⟨?_, rfl⟩
    refine congrArg Output.flag (decide_eq_decide.mpr ?_)
    rw [hsize]
    exact List.length_eq_zero_iff
  | fullReading =>
    rw [hthread] at hstep
    obtain rfl := Option.some.inj hstep
    refine h.reading hthread rfl rfl fun hsize => ⟨?_, rfl⟩
    exact congrArg Output.flag (decide_eq_decide.mpr (by rw [hsize]))
  | returning result =>
    rw [hthread] at hstep
    obtain rfl := Option.some.inj hstep
    exact .answer (h.phase_eq hthread) (h.outside (by rw [hthread]; rfl) rfl)

/-- **One step**: a call begins, or a thread goes on. -/
theorem follows_step (h : Mirrors s c) {a : Action ι α} (hstep : s.step a = some t) :
    Follows (BoundedMethod capacity) Mirrors t c (shown s a) := by
  cases a with
  | call i method =>
    have hphase := h.phases i
    rw [step] at hstep
    split at hstep
    · next hidle =>
      obtain rfl := Option.some.inj hstep
      rw [hidle] at hphase
      have hbegin : method.begin.locked = false := by cases method <;> rfl
      have hcalled : method.begin.phase = .called method := by cases method <;> rfl
      have hmirrors := h.outside (by rw [hidle]; rfl) hbegin
      rw [hcalled] at hmirrors
      exact .call hphase.symm hmirrors
    · cases hstep
  | advance i => exact follows_advance h hstep

omit [DecidableEq ι] in
theorem mirrors_create : Mirrors (create ι α capacity) (.start []) where
  mutex := fun i => iff_of_false Bool.false_ne_true (Option.some_ne_none i).symm
  tracks := ⟨CircularBuffer.empty, represents_empty, rfl, fun _ => ⟨rfl, rfl, rfl⟩,
    fun i hi => absurd hi (Option.some_ne_none i).symm⟩
  phases := fun _ => rfl

/-! ### Every history -/

/-- The thread waits for the mutex. -/
def Thread.waits : Thread α → Bool
  | .pushLocking _ | .popLocking => true
  | _ => false

/-- **No call gets stuck**, and none accesses a slot that does not exist or divides by zero. -/
theorem Mirrors.isSome_advance (h : Mirrors s c) (hbusy : s.threads i ≠ .idle)
    (hwaits : (s.threads i).waits = true → s.mutex = none) :
    (s.advance i (s.threads i)).isSome = true := by
  cases hthread : s.threads i with
  | idle => exact absurd hthread hbusy
  | pushLocking item =>
    rw [hthread] at hwaits
    rw [advance, SharedBuffer.lock, if_pos (hwaits rfl)]
    rfl
  | popLocking =>
    rw [hthread] at hwaits
    rw [advance, SharedBuffer.lock, if_pos (hwaits rfl)]
    rfl
  | storing item =>
    rw [advance, if_pos (h.storing hthread).1]
    rfl
  | movingTail item =>
    rw [advance, if_pos (h.movingTail hthread).1]
    rfl
  | taking =>
    obtain ⟨item, hitem, -⟩ := h.taking hthread
    rw [advance, hitem]
    rfl
  | movingHead item =>
    rw [advance, if_pos (h.movingHead hthread).1]
    rfl
  | _ => rfl

/-- **Every history of the buffer is linearizable** with respect to the bounded queue; of all
threads at most one is between locking and unlocking; and a call goes on whenever the mutex that it
waits for is free. -/
theorem histories_linearizable {events : List (Event ι (Method α) (Output (Option α)))}
    (h : Reaches (record step shown) (fun _ _ => True) (create ι α capacity, []) (s, events)) :
    Linearizable (BoundedMethod capacity) [] events ∧
      (∀ i j, (s.threads i).locked = true → (s.threads j).locked = true → i = j) ∧
      ∀ i, s.threads i ≠ .idle → ((s.threads i).waits = true → s.mutex = none) →
        (s.advance i (s.threads i)).isSome = true := by
  have hstep : ∀ (s : SharedBuffer ι α capacity) a t c, Mirrors s c → True →
      s.step a = some t → Follows (BoundedMethod capacity) Mirrors t c (shown s a) :=
    fun _ _ _ _ hs _ hstep => follows_step hs hstep
  obtain ⟨order, c, hatomic, hmirrors⟩ := atomic_of_simulation mirrors_create hstep h
  refine ⟨hatomic.linearizable, ?_, fun i => hmirrors.isSome_advance⟩
  intro i j hi hj
  have hmutex := (hmirrors.mutex i).mp hi
  exact Option.some.inj (hmutex.symm.trans ((hmirrors.mutex j).mp hj))

/-- A thread pushes to a buffer with one slot; before it adds to `size_` the other one has asked
whether the buffer is full, and afterwards it is refused. -/
def askedDuringPush : List (Action Bool ℕ) :=
  .call true (.push 7) :: List.replicate 4 (.advance true) ++
    [.call false .full, .advance false, .advance true, .advance false, .advance true,
      .call false (.push 8)] ++
    List.replicate 4 (.advance false) ++ [.advance true]

theorem histories_linearizable_askedDuringPush :
    Linearizable (BoundedMethod 1) []
      [.call true (.push 7), .call false .full, .answer false (.flag false),
        .call false (.push 8), .answer false (.flag false), .answer true (.flag true)] := by
  obtain ⟨s, hs⟩ : ∃ s : SharedBuffer Bool ℕ 1,
      run (record step shown) (fun _ _ => True) (create Bool ℕ 1, []) askedDuringPush
        = some (s, [.call true (.push 7), .call false .full, .answer false (.flag false),
          .call false (.push 8), .answer false (.flag false), .answer true (.flag true)]) :=
    ⟨_, rfl⟩
  exact (histories_linearizable (reaches_of_run hs)).1

end NetSentry.SharedBuffer
