import NetSentry.Core.MetricRegistry
import NetSentry.Db.Records

/-!
# The metric task of `main`

Each iteration of the loop of `main` gives a task to the thread pool that stores the metrics of all
collectors in the database.  The task reads each metric once, while the collectors go on; `value`
says what it reads of each.
-/

namespace NetSentry

namespace MetricTask

variable {μ : Type*}

/-- `collectors` of `main`. -/
def collectors (cpu : CpuCollector) : List (MetricRegistry MetricPointer) :=
  [cpu.registry, MemoryCollector.registry]

/-- The body of the loop over the names: a point, where there is a metric of the name. -/
def metricPoint (collector : MetricRegistry μ) (value : μ → ℚ) (now : Int64) (name : Bytes) :
    Option MetricDataPoint :=
  match collector.getMetric name with
  | some metric => some { metricName := name, value := value metric, timestamp := now }
  | none => none

/-- The points that the task inserts. -/
def metricPoints (collectors : List (MetricRegistry μ)) (value : μ → ℚ) (now : Int64) :
    List MetricDataPoint :=
  collectors.flatMap fun collector =>
    collector.getMetricNames.filterMap (metricPoint collector value now)

end MetricTask

end NetSentry
