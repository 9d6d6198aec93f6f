import NetSentry.Lib.Transition
import NetSentry.Network.CaptureLifecycle

/-!
# When `isCapturing` tells the truth

The move operations move the flag and the handle, and leave the thread where it is.

* `capture_consistent_of_reaches`: in every run in which only objects that do not capture are moved
  from, and only objects that still have their implementation are started, an object captures if and
  only if its handle is open and its own thread works for it, and no joinable thread is destroyed or
  assigned over.
* `not_consistent_movedWhileCapturing`: an object that is moved from while it captures.

`ObjectInv` ties the flag, the handle and the thread of one object together; every operation keeps
it, and `inv_step` puts the objects together.
-/

namespace NetSentry.CaptureLifecycle

open Transition

variable {ι η : Type} {w w' : World ι η} {i : ι} {o o' other : Object ι η}

/-! ### The statement -/

/-- What is expected of the objects. -/
structure Consistent (w : World ι η) : Prop where
  /-- `isCapturing` tells whether the handle is open and the object's own thread works for it. -/
  capturing : ∀ i o, w.objects i = some o → (o.isCapturing = true ↔ o.pimpl = some ⟨true⟩ ∧
    ∃ thread, o.captureThread = some thread ∧ thread.active = true ∧ thread.target = i)
  /-- The destructor and the move assignment begin with `stopCapture`, and find no joinable thread
  after it. -/
  released : ∀ i o, w.objects i = some o → ∀ o', o.stopCapture = .ok o' → o'.captureThread = none
  misuse : w.misuse = none

/-- Only objects that do not capture are moved from, and only objects that have an implementation
are started. -/
def Orderly (w : World ι η) : Action ι → Prop
  | .moveConstruct _ other => ∀ o ∈ w.objects other, o.isCapturing = false
  | .moveAssign i other => i ≠ other → ∀ o ∈ w.objects other, o.isCapturing = false
  | .startCapture i _ => ∀ o ∈ w.objects i, o.isCapturing = true ∨ o.pimpl.isSome = true
  | _ => True

instance [DecidableEq ι] (w : World ι η) : ∀ a, Decidable (Orderly w a)
  | .moveConstruct _ other =>
    inferInstanceAs (Decidable (∀ o ∈ w.objects other, o.isCapturing = false))
  | .moveAssign i other =>
    inferInstanceAs (Decidable (i ≠ other → ∀ o ∈ w.objects other, o.isCapturing = false))
  | .startCapture i _ =>
    inferInstanceAs (Decidable (∀ o ∈ w.objects i, o.isCapturing = true ∨ o.pimpl.isSome = true))
  | .construct _ | .destroy _ | .stopCapture _ | .pass _ _ _ => .isTrue trivial

/-! ### One object -/

/-- The flag, the handle and the thread of the object at `i` go together. -/
def ObjectInv (i : ι) (o : Object ι η) : Prop :=
  if o.isCapturing then o.pimpl = some ⟨true⟩ ∧ o.captureThread = some ⟨i, true⟩
  else o.pimpl ≠ some ⟨true⟩ ∧ o.captureThread = none

theorem objectInv_of_capturing (hcapturing : o.isCapturing = true)
    (hpimpl : o.pimpl = some ⟨true⟩) (hthread : o.captureThread = some ⟨i, true⟩) :
    ObjectInv i o := by
  rw [ObjectInv, if_pos hcapturing]
  exact ⟨hpimpl, hthread⟩

theorem objectInv_of_idle (hidle : o.isCapturing = false) (hpimpl : o.pimpl ≠ some ⟨true⟩)
    (hthread : o.captureThread = none) : ObjectInv i o := by
  rw [ObjectInv, if_neg (by rw [hidle]; decide)]
  exact ⟨hpimpl, hthread⟩

theorem ObjectInv.of_capturing (h : ObjectInv i o) (hcapturing : o.isCapturing = true) :
    o.pimpl = some ⟨true⟩ ∧ o.captureThread = some ⟨i, true⟩ := by
  rwa [ObjectInv, if_pos hcapturing] at h

theorem ObjectInv.of_idle (h : ObjectInv i o) (hidle : o.isCapturing = false) :
    o.pimpl ≠ some ⟨true⟩ ∧ o.captureThread = none := by
  rwa [ObjectInv, if_neg (by rw [hidle]; decide)] at h

theorem objectInv_create : ObjectInv i (Object.create : Object ι η) :=
  objectInv_of_idle rfl (by simp [Object.create]) rfl

/-- `stopCapture` succeeds, and leaves no thread. -/
theorem ObjectInv.stopCapture (h : ObjectInv i o) :
    ∃ o', o.stopCapture = .ok o' ∧ o'.isCapturing = false ∧ o'.pimpl ≠ some ⟨true⟩ ∧
      o'.captureThread = none := by
  rw [Object.stopCapture]
  cases hcapturing : o.isCapturing
  · obtain ⟨hpimpl, hthread⟩ := h.of_idle hcapturing
    exact ⟨o, rfl, hcapturing, hpimpl, hthread⟩
  · obtain ⟨hpimpl, -⟩ := h.of_capturing hcapturing
    rw [hpimpl]
    exact ⟨_, rfl, rfl, by simp [Impl.close], rfl⟩

/-- `startCapture` where the interface is opened. -/
theorem startCapture_of_opened (hidle : o.isCapturing = false) {impl : Impl}
    (himpl : o.pimpl = some impl) (hthread : o.captureThread = none) :
    o.startCapture i none = .ok (.none, {
      pimpl := some ⟨true⟩
      isCapturing := true
      captureThread := some ⟨i, true⟩
      members := { o.members with packetsCaptured := 0, bytesCaptured := 0 } }) := by
  rw [Object.startCapture, hidle, himpl]
  simp only [Impl.openInterface, hthread]
  rfl

/-- `startCapture` where the interface cannot be opened. -/
theorem startCapture_of_failed (hidle : o.isCapturing = false) {impl : Impl}
    (himpl : o.pimpl = some impl) (errbuf : Bytes) :
    ∃ error, o.startCapture i (some errbuf) = .ok (error, { o with pimpl := some ⟨false⟩ }) := by
  obtain ⟨error, herror, hne⟩ : ∃ error,
      impl.openInterface (some errbuf) = (error, ⟨false⟩) ∧ error ≠ .none := by
    rw [Impl.openInterface]
    split_ifs
    · exact ⟨_, rfl, by decide⟩
    · exact ⟨_, rfl, by decide⟩
    · exact ⟨_, rfl, by decide⟩
  refine ⟨error, ?_⟩
  rw [Object.startCapture, if_neg (by rw [hidle]; decide), himpl]
  simp only [herror, if_pos hne]

/-- `startCapture` on an object that has an implementation keeps the object in order. -/
theorem ObjectInv.startCapture (h : ObjectInv i o)
    (hpimpl : o.isCapturing = true ∨ o.pimpl.isSome = true) (errbuf : Option Bytes) :
    ∃ r, o.startCapture i errbuf = .ok r ∧ ObjectInv i r.2 := by
  cases hcapturing : o.isCapturing
  · obtain ⟨-, hthread⟩ := h.of_idle hcapturing
    obtain ⟨impl, himpl⟩ := Option.isSome_iff_exists.mp
      (hpimpl.resolve_left (by rw [hcapturing]; decide))
    cases errbuf with
    | none =>
      exact ⟨_, startCapture_of_opened hcapturing himpl hthread,
        objectInv_of_capturing rfl rfl rfl⟩
    | some errbuf =>
      obtain ⟨error, hfailed⟩ := startCapture_of_failed hcapturing himpl errbuf
      exact ⟨_, hfailed, objectInv_of_idle hcapturing (by simp) hthread⟩
  · refine ⟨(.alreadyRunning, o), ?_, h⟩
    rw [Object.startCapture, if_pos hcapturing]

/-- What is moved into a new object, from one that does not capture. -/
theorem ObjectInv.movedTo {j : ι} (h : ObjectInv j other) (hidle : other.isCapturing = false) :
    ObjectInv i other.movedTo :=
  objectInv_of_idle hidle (h.of_idle hidle).1 rfl

theorem ObjectInv.movedFrom (h : ObjectInv i other) (hidle : other.isCapturing = false) :
    ObjectInv i other.movedFrom :=
  objectInv_of_idle rfl nofun (h.of_idle hidle).2

theorem ObjectInv.assign {j : ι} (h : ObjectInv i o) (hother : ObjectInv j other)
    (hidle : other.isCapturing = false) : ∃ o', o.assign other = .ok o' ∧ ObjectInv i o' := by
  obtain ⟨o₁, ho₁, -, -, hthread⟩ := h.stopCapture
  rw [Object.assign, ho₁]
  exact ⟨_, rfl, objectInv_of_idle hidle (hother.of_idle hidle).1 hthread⟩

theorem ObjectInv.destroy (h : ObjectInv i o) : o.destroy = .ok () := by
  obtain ⟨o₁, ho₁, -, -, hthread⟩ := h.stopCapture
  simp only [Object.destroy, ho₁, bind, Except.bind, hthread]
  rfl

/-- The capture thread does not touch the flag, the handle or itself. -/
theorem ObjectInv.setMembers (h : ObjectInv i o) (members : PacketCapture η) :
    ObjectInv i { o with members := members } := h

/-! ### All the objects -/

/-- **The invariant.** -/
structure Inv (w : World ι η) : Prop where
  objects : ∀ i o, w.objects i = some o → ObjectInv i o
  misuse : w.misuse = none

theorem inv_initial : Inv (World.initial : World ι η) where
  objects := fun _ _ h => nomatch h
  misuse := rfl

theorem after_of_eq_ok {α : Type} {result : Except Misuse α} {a : α} (h : result = .ok a)
    (next : α → World ι η) : w.after result next = next a := by
  rw [h]
  rfl

variable [DecidableEq ι]

theorem Inv.set (hinv : Inv w) {changed : Option (Object ι η)}
    (hchanged : ∀ o ∈ changed, ObjectInv i o) : Inv (w.set i changed) where
  objects := fun j o hj => by
    change Function.update w.objects i changed j = some o at hj
    by_cases hji : j = i
    · rw [hji, Function.update_self] at hj
      exact hji ▸ hchanged o hj
    · rw [Function.update_of_ne hji] at hj
      exact hinv.objects j o hj
  misuse := hinv.misuse

theorem Inv.setSome (hinv : Inv w) (ho : ObjectInv i o) : Inv (w.set i (some o)) :=
  hinv.set fun _ h => Option.some.inj h ▸ ho

/-- A capture thread works for the object that it belongs to, and finds its flag set. -/
theorem inv_pass (hinv : Inv w) (hi : w.objects i = some o) {target : ι}
    (hthread : o.captureThread = some ⟨target, true⟩) {u : Indeterminate} {outcome : PcapOutcome}
    (h : w.pass i o ⟨target, true⟩ u outcome = some w') : Inv w' := by
  have ho := hinv.objects i o hi
  cases hcapturing : o.isCapturing
  · rw [(ho.of_idle hcapturing).2] at hthread
    cases hthread
  · obtain ⟨hpimpl, hown⟩ := ho.of_capturing hcapturing
    obtain ⟨rfl, -⟩ := CaptureThread.mk.inj (Option.some.inj (hthread.symm.trans hown))
    simp only [World.pass, hi] at h
    rw [if_pos hcapturing, if_pos hpimpl] at h
    split at h
    · obtain rfl := Option.some.inj h
      exact hinv.setSome (ho.setMembers _)
    · cases h

/-- **One step keeps the invariant.** -/
theorem inv_step {a : Action ι} (hinv : Inv w) (horderly : Orderly w a)
    (h : step w a = some w') : Inv w' := by
  have hnone : ¬ w.misuse.isSome = true := by rw [hinv.misuse]; decide
  unfold step at h
  rw [if_neg hnone] at h
  cases a with
  | construct i =>
    dsimp only at h
    split_ifs at h
    obtain rfl := Option.some.inj h
    exact hinv.setSome objectInv_create
  | moveConstruct i j =>
    dsimp only at h
    split at h
    · next o hi hj =>
      obtain rfl := Option.some.inj h
      -- an object that does not capture has no thread that the new one would have to own
      have ho := hinv.objects j o hj
      have hidle := horderly o hj
      exact (hinv.setSome (ho.movedTo hidle)).setSome (ho.movedFrom hidle)
    · cases h
  | moveAssign i j =>
    dsimp only at h
    split at h
    · next o o' hi hj =>
      split_ifs at h with hij
      · obtain rfl := Option.some.inj h
        exact hinv
      · obtain rfl := Option.some.inj h
        have ho' := hinv.objects j o' hj
        have hidle := horderly hij o' hj
        obtain ⟨o₁, ho₁, hassigned⟩ := (hinv.objects i o hi).assign ho' hidle
        rw [after_of_eq_ok ho₁]
        exact (hinv.setSome hassigned).setSome (ho'.movedFrom hidle)
    · cases h
  | destroy i =>
    obtain ⟨o, hi, rfl⟩ := Option.map_eq_some_iff.mp h
    rw [after_of_eq_ok (hinv.objects i o hi).destroy]
    exact hinv.set nofun
  | startCapture i errbuf =>
    obtain ⟨o, hi, rfl⟩ := Option.map_eq_some_iff.mp h
    obtain ⟨r, hr, hstarted⟩ := (hinv.objects i o hi).startCapture (horderly o hi) errbuf
    rw [after_of_eq_ok hr]
    exact hinv.setSome hstarted
  | stopCapture i =>
    obtain ⟨o, hi, rfl⟩ := Option.map_eq_some_iff.mp h
    obtain ⟨o₁, ho₁, hidle, hpimpl, hthread⟩ := (hinv.objects i o hi).stopCapture
    rw [after_of_eq_ok ho₁]
    exact hinv.setSome (objectInv_of_idle hidle hpimpl hthread)
  | pass i u outcome =>
    dsimp only at h
    split at h
    · cases h
    · next o hi =>
      split at h
      · next target hthread => exact inv_pass hinv hi hthread h
      · cases h

omit [DecidableEq ι] in
theorem consistent_of_inv (hinv : Inv w) : Consistent w where
  capturing := fun i o hi => by
    have ho := hinv.objects i o hi
    constructor
    · intro hcapturing
      obtain ⟨hpimpl, hthread⟩ := ho.of_capturing hcapturing
      exact ⟨hpimpl, _, hthread, rfl, rfl⟩
    · rintro ⟨hpimpl, -⟩
      by_contra hnot
      exact (ho.of_idle (by simpa using hnot)).1 hpimpl
  released := fun i o hi o' ho' => by
    obtain ⟨o₁, ho₁, -, -, hthread⟩ := (hinv.objects i o hi).stopCapture
    obtain rfl := Except.ok.inj (ho'.symm.trans ho₁)
    exact hthread
  misuse := hinv.misuse

/-- **`isCapturing` tells the truth**, in every run in which no object is moved from while it
captures, and none is started after it was moved from. -/
theorem capture_consistent_of_reaches (h : Reaches step Orderly World.initial w) :
    Consistent w := by
  have hkeep : ∀ (w : World ι η) a w', Inv w → Orderly w a → step w a = some w' → Inv w' :=
    fun _ _ _ hinv horderly hstep => inv_step hinv horderly hstep
  exact consistent_of_inv (h.invariant hkeep inv_initial)

/-! ### Two runs -/

/-- What the members of a packet happen to hold. -/
def zeroed : Indeterminate where
  size := 0
  sourcePort := 0
  destPort := 0
  protocol := 0
  timestamp := 0

/-- An object captures, is stopped and is moved into a new one, which then captures. -/
def movedAfterStop : List (Action Bool) :=
  [.construct true, .startCapture true none, .pass true zeroed none, .stopCapture true,
    .moveConstruct false true, .destroy true, .startCapture false none, .pass false zeroed none]

theorem consistent_movedAfterStop :
    ∃ w : World Bool Unit, run step Orderly World.initial movedAfterStop = some w ∧
      (w.objects false).map Object.isCapturing = some true ∧ Consistent w := by
  have hrun : ∃ w : World Bool Unit, run step Orderly World.initial movedAfterStop = some w ∧
      (w.objects false).map Object.isCapturing = some true := ⟨_, rfl, rfl⟩
  obtain ⟨w, hrun, hcapturing⟩ := hrun
  exact ⟨w, hrun, hcapturing, capture_consistent_of_reaches (reaches_of_run hrun)⟩

/-- An object is moved into a new one while it captures. -/
def movedWhileCapturing : List (Action Bool) :=
  [.construct true, .startCapture true none, .moveConstruct false true]

/-- The new object reports that it captures, and has no thread. -/
theorem not_consistent_movedWhileCapturing :
    ¬ ∀ (ι η : Type) (_ : DecidableEq ι) (w : World ι η),
      Reaches step (fun _ _ => True) World.initial w → Consistent w := by
  intro h
  have hend : ∃ w : World Bool Unit,
      run step (fun _ _ => True) World.initial movedWhileCapturing = some w ∧
      ∃ o, w.objects false = some o ∧ o.isCapturing = true ∧ o.captureThread = none :=
    ⟨_, rfl, _, rfl, rfl, rfl⟩
  obtain ⟨w, hrun, o, ho, hcapturing, hnone⟩ := hend
  obtain ⟨-, thread, hthread, -⟩ :=
    ((h Bool Unit inferInstance w (reaches_of_run hrun)).capturing false o ho).mp hcapturing
  rw [hnone] at hthread
  cases hthread

end NetSentry.CaptureLifecycle
