import Mathlib.Logic.Function.Basic
import NetSentry.Lib.Search
import NetSentry.Network.PacketCapture

/-!
# The life of a capture

Any number of `PacketCapture` objects, at addresses of a type `ι`: they are constructed, moved from
and into, started, stopped and destroyed.  A capture thread executes `captureThreadFunc` on the
object that it was started by, wherever that object's members have moved in the meantime.  A call is
one step, and so is a pass of a capture thread.
-/

namespace NetSentry

open Bytes Checked Search

/-- `CaptureError`. -/
inductive CaptureError
  | none
  | permissionDenied
  | interfaceNotFound
  | alreadyRunning
  | systemError
deriving DecidableEq

namespace CaptureLifecycle

/-- `PacketCapture::Impl`, whose handle is open or null. -/
structure Impl where
  handleOpen : Bool
deriving DecidableEq

/-- `Impl::openInterface`.  Where `pcap_open_live` fails, it leaves a text in `errbuf`. -/
def Impl.openInterface (_ : Impl) : Option Bytes → CaptureError × Impl
  | .none => (.none, ⟨true⟩)
  | .some errbuf =>
    if (find (ascii "permission") errbuf).isSome then (.permissionDenied, ⟨false⟩)
    else if (find (ascii "exist") errbuf).isSome ∨ (find (ascii "found") errbuf).isSome then
      (.interfaceNotFound, ⟨false⟩)
    else (.systemError, ⟨false⟩)

/-- `Impl::close`. -/
def Impl.close (_ : Impl) : Impl := ⟨false⟩

/-- A joinable thread: the object that it executes `captureThreadFunc` on, and whether it still
does. -/
structure CaptureThread (ι : Type) where
  target : ι
  active : Bool
deriving DecidableEq

/-- A `PacketCapture` with all its members. -/
structure Object (ι η : Type) where
  /-- `pimpl_`. -/
  pimpl : Option Impl
  isCapturing : Bool
  /-- `capture_thread_`, if it is joinable. -/
  captureThread : Option (CaptureThread ι)
  members : PacketCapture η

/-- What a program must not do. -/
inductive Misuse
  /-- A null `pimpl_` or a null handle is used. -/
  | nullPointer
  /-- A joinable thread is destroyed or assigned over. -/
  | joinableThread
  /-- A capture thread uses an object that does not exist. -/
  | noObject
deriving DecidableEq

variable {ι η : Type}

/-- The constructor. -/
def Object.create : Object ι η where
  pimpl := some ⟨false⟩
  isCapturing := false
  captureThread := none
  members := .create

/-- What the move constructor makes of the object that it moves from. -/
def Object.movedTo (other : Object ι η) : Object ι η where
  pimpl := other.pimpl
  isCapturing := other.isCapturing
  captureThread := none
  members := {
    packetsCaptured := other.members.packetsCaptured
    bytesCaptured := other.members.bytesCaptured
    packetBuffer := .empty
    handlers := other.members.handlers }

/-- What either move operation leaves of the object that it moves from. -/
def Object.movedFrom (other : Object ι η) : Object ι η :=
  { other with
    pimpl := none
    isCapturing := false
    members := { other.members with packetsCaptured := 0, bytesCaptured := 0, handlers := [] } }

/-- `startCapture` on the object at `self`: the value that it returns, and the object afterwards. -/
def Object.startCapture (o : Object ι η) (self : ι) (errbuf : Option Bytes) :
    Except Misuse (CaptureError × Object ι η) :=
  if o.isCapturing then .ok (.alreadyRunning, o)
  else
    match o.pimpl with
    | none => .error .nullPointer
    | some impl =>
      let (error, impl) := impl.openInterface errbuf
      let o := { o with pimpl := some impl }
      if error ≠ .none then .ok (error, o)
      else
        let o := { o with
          isCapturing := true
          members := { o.members with packetsCaptured := 0, bytesCaptured := 0 } }
        if o.captureThread.isSome then .error .joinableThread
        else .ok (.none, { o with captureThread := some ⟨self, true⟩ })

/-- `stopCapture`.  The thread that is joined finds `is_capturing_` cleared, and ends. -/
def Object.stopCapture (o : Object ι η) : Except Misuse (Object ι η) :=
  if o.isCapturing then
    match o.pimpl with
    | none => .error .nullPointer
    | some impl =>
      .ok { o with isCapturing := false, captureThread := none, pimpl := some impl.close }
  else .ok o

/-- The destructor, whose members are destroyed after `stopCapture`. -/
def Object.destroy (o : Object ι η) : Except Misuse Unit := do
  let o ← o.stopCapture
  if o.captureThread.isSome then .error .joinableThread else .ok ()

/-- The move assignment from an object other than itself. -/
def Object.assign (o other : Object ι η) : Except Misuse (Object ι η) := do
  let o ← o.stopCapture
  .ok { o with
    pimpl := other.pimpl
    isCapturing := other.isCapturing
    members := { o.members with
      packetsCaptured := other.members.packetsCaptured
      bytesCaptured := other.members.bytesCaptured
      handlers := other.members.handlers } }

/-- The objects that exist, and the first misuse. -/
structure World (ι η : Type) where
  objects : ι → Option (Object ι η)
  misuse : Option Misuse

/-- There is no object yet. -/
def World.initial : World ι η where
  objects := fun _ => none
  misuse := none

/-- What happens next. -/
inductive Action (ι : Type)
  | construct (i : ι)
  | moveConstruct (i other : ι)
  | moveAssign (i other : ι)
  | destroy (i : ι)
  | startCapture (i : ι) (errbuf : Option Bytes)
  | stopCapture (i : ι)
  /-- A pass of the loop of the capture thread that belongs to the object. -/
  | pass (i : ι) (u : Indeterminate) (outcome : PcapOutcome)

variable [DecidableEq ι]

/-- The object is changed, created or destroyed. -/
def World.set (w : World ι η) (i : ι) (o : Option (Object ι η)) : World ι η :=
  { w with objects := Function.update w.objects i o }

/-- A call leaves a new world, or misuses something. -/
def World.after {α : Type} (w : World ι η) (result : Except Misuse α) (next : α → World ι η) :
    World ι η :=
  match result with
  | .ok a => next a
  | .error misuse => { w with misuse := some misuse }

/-- A pass of the loop of `captureThreadFunc`, by the thread that belongs to object `i`.  A pass
that reads past the captured bytes is left out. -/
def World.pass (w : World ι η) (i : ι) (o : Object ι η) (thread : CaptureThread ι)
    (u : Indeterminate) (outcome : PcapOutcome) : Option (World ι η) :=
  match w.objects thread.target with
  | none => some { w with misuse := some .noObject }
  | some target =>
    if target.isCapturing then
      if target.pimpl = some ⟨true⟩ then
        match target.members.capturePass u outcome with
        | .ok (_, members) => some (w.set thread.target (some { target with members := members }))
        | .error _ => none
      else some { w with misuse := some .nullPointer }
    else some (w.set i (some { o with captureThread := some { thread with active := false } }))

/-- The world after a step, where the step can be taken.  Nothing happens after a misuse. -/
def step (w : World ι η) (a : Action ι) : Option (World ι η) :=
  if w.misuse.isSome then none
  else
    match a with
    | .construct i => if (w.objects i).isNone then some (w.set i (some .create)) else none
    | .moveConstruct i other =>
      match w.objects i, w.objects other with
      | none, some o => some ((w.set i (some o.movedTo)).set other (some o.movedFrom))
      | _, _ => none
    | .moveAssign i other =>
      match w.objects i, w.objects other with
      | some o, some o' =>
        if i = other then some w
        else some (w.after (o.assign o') fun o =>
          (w.set i (some o)).set other (some o'.movedFrom))
      | _, _ => none
    | .destroy i =>
      (w.objects i).map fun o => w.after o.destroy fun _ => w.set i none
    | .startCapture i errbuf =>
      (w.objects i).map fun o => w.after (o.startCapture i errbuf) fun r => w.set i (some r.2)
    | .stopCapture i => (w.objects i).map fun o => w.after o.stopCapture fun o => w.set i (some o)
    | .pass i u outcome =>
      match w.objects i with
      | none => none
      | some o =>
        match o.captureThread with
        | some ⟨target, true⟩ => w.pass i o ⟨target, true⟩ u outcome
        | _ => none

end CaptureLifecycle

end NetSentry
