import NetSentry.Alert.AlertRule
import NetSentry.Api.RestApi
import NetSentry.Core.SystemMetrics

/-!
# Conditions of alerts

`MetricThresholdCondition` of `alert/alert_rule.cpp`.  A condition points to a metric that a
collector goes on updating, so that what it finds is given by the metrics at the time.  A `double`
is its exact value.
-/

namespace NetSentry

open Bytes

/-- `Comparator`. -/
inductive Comparator
  | greaterThan
  | lessThan
  | equalTo
  | notEqualTo
  | greaterEqual
  | lessEqual
deriving DecidableEq

/-- The text of a comparator in a description. -/
def Comparator.str : Comparator → Bytes
  | .greaterThan => ascii ">"
  | .lessThan => ascii "<"
  | .equalTo => ascii "=="
  | .notEqualTo => ascii "!="
  | .greaterEqual => ascii ">="
  | .lessEqual => ascii "<="

/-- `static_cast<int>` of a severity. -/
def Severity.toInt : Severity → ℤ
  | .info => 0
  | .warning => 1
  | .error => 2
  | .critical => 3

/-- `MetricThresholdCondition`, with the pointer to its metric, which may be null. -/
structure MetricThresholdCondition (μ : Type*) where
  metric : Option μ
  comparator : Comparator
  threshold : ℚ

namespace MetricThresholdCondition

variable {μ : Type*}

/-- `MetricThresholdCondition::compareValues`. -/
def compareValues (comparator : Comparator) (value threshold : ℚ) : Bool :=
  match comparator with
  | .greaterThan => value > threshold
  | .lessThan => value < threshold
  | .equalTo => |value - threshold| < 1 / 10 ^ 6
  | .notEqualTo => |value - threshold| ≥ 1 / 10 ^ 6
  | .greaterEqual => value ≥ threshold
  | .lessEqual => value ≤ threshold

/-- `MetricThresholdCondition::evaluate`, given the metrics as they are at the time. -/
def evaluate (c : MetricThresholdCondition μ) (metrics : μ → Metric ℚ) : Bool :=
  match c.metric with
  | none => false
  | some metric => compareValues c.comparator (metrics metric).currentValue c.threshold

/-- `MetricThresholdCondition::getDescription`. -/
def getDescription (c : MetricThresholdCondition μ) (metrics : μ → Metric ℚ) : Bytes :=
  match c.metric with
  | none => ascii "Invalid metric"
  | some metric =>
    (metrics metric).name ++ ascii " " ++ c.comparator.str ++ ascii " " ++
      RestApi.toStringDouble c.threshold

end MetricThresholdCondition

end NetSentry
