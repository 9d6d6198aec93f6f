import NetSentry.Alert.AlertRule

/-!
# `AlertManager`

`checkAlerts` of `alert/alert_manager.cpp` goes through the alerts in the order of their creation
and calls every callback for those that fire.  A callback that throws ends the pass.  Every public
operation holds the manager's mutex throughout, so that a run is a list of calls.
-/

namespace NetSentry

/-- `AlertManager`, with callbacks of a type `κ`, and how many readings of the clock have been
taken. -/
structure AlertManager (κ : Type*) where
  alerts : List Alert
  callbacks : List κ
  cooldownPolicy : CooldownPolicy
  reads : ℕ

namespace AlertManager

variable {κ : Type*}

/-- Sixty seconds. -/
def cooldown : ℤ := 60 * 10 ^ 9

/-- The constructor. -/
def create : AlertManager κ where
  alerts := []
  callbacks := []
  cooldownPolicy := .create cooldown
  reads := 0

/-- `AlertManager::createAlert`. -/
def createAlert (m : AlertManager κ) (alert : Alert) : AlertManager κ :=
  { m with alerts := m.alerts ++ [alert] }

/-- `AlertManager::registerCallback`. -/
def registerCallback (m : AlertManager κ) (callback : κ) : AlertManager κ :=
  { m with callbacks := m.callbacks ++ [callback] }

/-- What a pass of `checkAlerts` finds: whether the condition of the alert with an index holds, and
whether the callback with an index returns normally when it is called for it. -/
structure Pass where
  holds : ℕ → Bool
  returns : ℕ → ℕ → Bool

/-- What a pass does about one alert. -/
structure Check (κ : Type*) where
  /-- The index of the alert. -/
  index : ℕ
  holds : Bool
  /-- The reading that `shouldSuppressAlert` takes. -/
  reading : Option ℤ
  /-- The reading that `recordAlertFired` records. -/
  fired : Option ℤ
  /-- The callbacks that are called, in the order of the calls. -/
  calls : List κ

/-- The loop over the callbacks: those that are called, and whether all of them return normally. -/
def notify (returns : ℕ → Bool) : ℕ → List κ → List κ × Bool
  | _, [] => ([], true)
  | j, callback :: callbacks =>
    if returns j then
      (callback :: (notify returns (j + 1) callbacks).1, (notify returns (j + 1) callbacks).2)
    else ([callback], false)

/-- The body of the loop over the alerts: what it does, the manager afterwards, and whether it
returns normally. -/
def checkAlert (clock : ℕ → ℤ) (pass : Pass) (m : AlertManager κ) (i : ℕ) (alert : Alert) :
    Check κ × AlertManager κ × Bool :=
  if pass.holds i then
    let (suppressed, reading, reads) :=
      m.cooldownPolicy.shouldSuppressAlert clock m.reads alert
    if suppressed then
      ({ index := i, holds := true, reading := reading, fired := none, calls := [] },
        { m with reads := reads }, true)
    else
      let (time, cooldownPolicy, reads) := m.cooldownPolicy.recordAlertFired clock reads alert
      let (calls, returned) := notify (pass.returns i) 0 m.callbacks
      ({ index := i, holds := true, reading := reading, fired := some time, calls := calls },
        { m with cooldownPolicy := cooldownPolicy, reads := reads }, returned)
  else
    ({ index := i, holds := false, reading := none, fired := none, calls := [] }, m, true)

/-- The loop over the alerts, from the one with index `i` on. -/
def checkFrom (clock : ℕ → ℤ) (pass : Pass) :
    AlertManager κ → ℕ → List Alert → List (Check κ) × AlertManager κ
  | m, _, [] => ([], m)
  | m, i, alert :: alerts =>
    match checkAlert clock pass m i alert with
    | (check, m, true) =>
      (check :: (checkFrom clock pass m (i + 1) alerts).1,
        (checkFrom clock pass m (i + 1) alerts).2)
    | (check, m, false) => ([check], m)

/-- `AlertManager::checkAlerts`. -/
def checkAlerts (clock : ℕ → ℤ) (pass : Pass) (m : AlertManager κ) :
    List (Check κ) × AlertManager κ :=
  checkFrom clock pass m 0 m.alerts

/-- A call that changes the manager. -/
inductive Call (κ : Type*)
  | createAlert (alert : Alert)
  | registerCallback (callback : κ)
  | checkAlerts (pass : Pass)

/-- What a call does about the alerts, and the manager after it. -/
def call (clock : ℕ → ℤ) (m : AlertManager κ) : Call κ → List (Check κ) × AlertManager κ
  | .createAlert alert => ([], m.createAlert alert)
  | .registerCallback callback => ([], m.registerCallback callback)
  | .checkAlerts pass => m.checkAlerts clock pass

/-- What the calls of a run do about the alerts, in their order, and the manager after it. -/
def run (clock : ℕ → ℤ) : AlertManager κ → List (Call κ) → List (Check κ) × AlertManager κ
  | m, [] => ([], m)
  | m, c :: calls =>
    ((call clock m c).1 ++ (run clock (call clock m c).2 calls).1,
      (run clock (call clock m c).2 calls).2)

/-- The alerts that a run creates, in the order of their creation. -/
def created (calls : List (Call κ)) : List Alert :=
  calls.filterMap fun
    | .createAlert alert => some alert
    | _ => none

/-- The callbacks that a run registers, in the order of their registration. -/
def registered (calls : List (Call κ)) : List κ :=
  calls.filterMap fun
    | .registerCallback callback => some callback
    | _ => none

/-- No callback throws in a pass. -/
def Pass.Returns (pass : Pass) : Prop := ∀ i j, pass.returns i j = true

/-- The times at which the alert with an index has fired. -/
def firings (i : ℕ) (history : List (Check κ)) : List ℤ :=
  history.filterMap fun check => if check.index = i then check.fired else none

end AlertManager

end NetSentry
