import NetSentry.Alert.AlertManager
import NetSentry.Alert.Conditions
import NetSentry.Db.Records
import NetSentry.Main.Settings

/-!
# The alerts of `main`

`main` registers one callback, which inserts a record of the alert into the database, and creates a
warning and a critical alert for each of two metrics.  Each iteration of its loop gives a task to
the thread pool that checks the alerts.
-/

namespace NetSentry

open Bytes

namespace MainAlerts

variable {μ : Type*}

/-- An alert with its condition. -/
structure Rule (μ : Type*) where
  alert : Alert
  condition : MetricThresholdCondition μ

/-- The alert that `main` creates for a metric above a threshold. -/
def aboveThreshold (name : Bytes) (metric : μ) (threshold : UInt32) (severity : Severity) :
    Rule μ where
  alert := { name := name, severity := severity }
  condition :=
    { metric := some metric, comparator := .greaterThan, threshold := threshold.toNat }

/-- "Set up CPU usage alert". -/
def cpuRules (config : ConfigManager) (cpuMetric : Option μ) : List (Rule μ) :=
  match cpuMetric with
  | none => []
  | some metric =>
    [aboveThreshold (ascii "High CPU Usage (Warning)") metric (MainSettings.cpuWarning config)
        .warning,
      aboveThreshold (ascii "High CPU Usage (Critical)") metric (MainSettings.cpuCritical config)
        .critical]

/-- "Set up memory usage alert". -/
def memoryRules (config : ConfigManager) (memoryMetric : Option μ) : List (Rule μ) :=
  match memoryMetric with
  | none => []
  | some metric =>
    [aboveThreshold (ascii "High Memory Usage (Warning)") metric (MainSettings.memWarning config)
        .warning,
      aboveThreshold (ascii "High Memory Usage (Critical)") metric
        (MainSettings.memCritical config) .critical]

/-- The alerts that `main` creates, in their order. -/
def rules (config : ConfigManager) (cpuMetric memoryMetric : Option μ) : List (Rule μ) :=
  cpuRules config cpuMetric ++ memoryRules config memoryMetric

/-- The callback: the record that it inserts. -/
def alertRecord (metrics : μ → Metric ℚ) (now : Int64) (rule : Rule μ) : AlertRecord where
  name := rule.alert.name
  description := rule.condition.getDescription metrics
  severity := rule.alert.severity.toInt
  timestamp := now
  acknowledged := false

/-- What a task that checks the alerts finds: the metrics when it comes to the alert with an index,
which the collectors update meanwhile, and the seconds of `system_clock` in the callback for it. -/
structure Findings (μ : Type*) where
  metrics : ℕ → μ → Metric ℚ
  seconds : ℕ → Int64

/-- The pass of `checkAlerts` in which it finds that; `insertAlert` returns normally. -/
def toPass (rules : List (Rule μ)) (findings : Findings μ) : AlertManager.Pass where
  holds := fun i => rules[i]?.elim false fun rule => rule.condition.evaluate (findings.metrics i)
  returns := fun _ _ => true

/-- The set-up of the manager: its callback, and its alerts. -/
def setUp (rules : List (Rule μ)) : List (AlertManager.Call Unit) :=
  .registerCallback () :: rules.map fun rule => .createAlert rule.alert

/-- What `main` calls on the manager for a list of tasks. -/
def calls (rules : List (Rule μ)) (tasks : List (Findings μ)) : List (AlertManager.Call Unit) :=
  setUp rules ++ tasks.map fun findings => .checkAlerts (toPass rules findings)

/-- The records that one task inserts, for what `checkAlerts` has done. -/
def insertedRecords (rules : List (Rule μ)) (findings : Findings μ)
    (checks : List (AlertManager.Check Unit)) : List AlertRecord :=
  checks.flatMap fun check =>
    check.calls.filterMap fun () =>
      rules[check.index]?.map fun rule =>
        alertRecord (findings.metrics check.index) (findings.seconds check.index) rule

/-- The records that tasks insert, one after the other, from a manager on. -/
def inserted (clock : ℕ → ℤ) (rules : List (Rule μ)) :
    AlertManager Unit → List (Findings μ) → List AlertRecord
  | _, [] => []
  | m, findings :: tasks =>
    let (checks, m) := m.checkAlerts clock (toPass rules findings)
    insertedRecords rules findings checks ++ inserted clock rules m tasks

end MainAlerts

end NetSentry
