import Mathlib.Data.Finmap
import NetSentry.Lib.Numeral

/-!
# Alerts and their cooldown

`CooldownPolicy` of `alert/alert_rule.cpp`: when the alert of a name has fired, it is suppressed
until the cooldown is over.  The readings of `steady_clock` are a sequence `clock` of times in
nanoseconds; `reads` counts those that have been taken.
-/

namespace NetSentry

/-- `Severity`. -/
inductive Severity
  | info
  | warning
  | error
  | critical
deriving DecidableEq

/-- `Alert`, less its condition, whose outcomes are arbitrary. -/
structure Alert where
  name : Bytes
  severity : Severity
deriving DecidableEq

/-- The readings of a steady clock never decrease. -/
def Steady (clock : ℕ → ℤ) : Prop := ∀ ⦃i j⦄, i ≤ j → clock i ≤ clock j

/-- `CooldownPolicy`, with the times at which the alerts of each name have last fired. -/
structure CooldownPolicy where
  cooldownDuration : ℤ
  lastFired : Finmap fun _ : Bytes => ℤ

namespace CooldownPolicy

/-- The constructor. -/
def create (duration : ℤ) : CooldownPolicy where
  cooldownDuration := duration
  lastFired := ∅

/-- `CooldownPolicy::shouldSuppressAlert`: the answer, the reading if one was taken, and how many
there have been.  The clock is not read for a name that has not fired. -/
def shouldSuppressAlert (c : CooldownPolicy) (clock : ℕ → ℤ) (reads : ℕ) (alert : Alert) :
    Bool × Option ℤ × ℕ :=
  match c.lastFired.lookup alert.name with
  | none => (false, none, reads)
  | some fired =>
    let now := clock reads
    let elapsed := now - fired
    (elapsed < c.cooldownDuration, some now, reads + 1)

/-- `CooldownPolicy::recordAlertFired`: the reading that is recorded, the policy afterwards, and how
many readings there have been. -/
def recordAlertFired (c : CooldownPolicy) (clock : ℕ → ℤ) (reads : ℕ) (alert : Alert) :
    ℤ × CooldownPolicy × ℕ :=
  (clock reads, { c with lastFired := c.lastFired.insert alert.name (clock reads) }, reads + 1)

end CooldownPolicy

end NetSentry
