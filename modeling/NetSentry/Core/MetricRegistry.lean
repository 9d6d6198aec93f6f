import NetSentry.Core.CpuCollector
import NetSentry.Core.MemoryCollector
import NetSentry.Lib.ByteOrder
import NetSentry.Lib.OrderedMap

/-!
# The metrics of a collector

`CollectorBase` keeps pointers to its metrics in a map by their names, which is ordered as
`std::string` is: by the bytes, as unsigned numbers, from the first one on.  The constructors of
`CpuCollector` and of `MemoryCollector` register what the collectors publish.
-/

namespace NetSentry

open Bytes

/-- `metrics_` of a `CollectorBase`, with the pointers to its metrics. -/
structure MetricRegistry (μ : Type*) where
  metrics : OrderedMap Bytes μ

namespace MetricRegistry

variable {μ : Type*}

/-- The constructor. -/
def create : MetricRegistry μ where
  metrics := .empty

/-- `CollectorBase::registerMetric`, given what `getName` of the metric returns. -/
def registerMetric (r : MetricRegistry μ) (name : Bytes) (metric : μ) : MetricRegistry μ where
  metrics := r.metrics.assign name metric

/-- `CollectorBase::getMetric`. -/
def getMetric (r : MetricRegistry μ) (name : Bytes) : Option μ :=
  (r.metrics.entries.find? (·.1 = name)).map Prod.snd

/-- `CollectorBase::getMetricNames`. -/
def getMetricNames (r : MetricRegistry μ) : List Bytes := r.metrics.entries.map Prod.fst

/-- A constructor that registers metrics one after the other. -/
def ofMetrics (name : μ → Bytes) (metrics : List μ) : MetricRegistry μ :=
  metrics.foldl (fun r metric => r.registerMetric (name metric) metric) create

end MetricRegistry

/-- The gauges of `MemoryCollector`. -/
inductive MemoryMetric
  | total
  | used
  | free
  | usagePercent
  | swapTotal
  | swapUsed
  | swapUsagePercent
deriving DecidableEq

/-- The metrics of the two collectors. -/
inductive MetricPointer
  | cpu (metric : CpuCollector.CpuMetric)
  | memory (metric : MemoryMetric)
deriving DecidableEq

/-- The name that the constructor of `CpuCollector` gives to a metric. -/
def CpuCollector.CpuMetric.name : CpuCollector.CpuMetric → Bytes
  | .usage => ascii "cpu.usage"
  | .coreUsage i => ascii "cpu.core." ++ decimal i ++ ascii ".usage"

/-- The name that the constructor of `MemoryCollector` gives to a gauge. -/
def MemoryMetric.name : MemoryMetric → Bytes
  | .total => ascii "memory.total"
  | .used => ascii "memory.used"
  | .free => ascii "memory.free"
  | .usagePercent => ascii "memory.usage_percent"
  | .swapTotal => ascii "memory.swap_total"
  | .swapUsed => ascii "memory.swap_used"
  | .swapUsagePercent => ascii "memory.swap_usage_percent"

/-- The gauge that a pointer of `MemoryCollector` leads to. -/
def MemoryMetric.gauge (c : MemoryCollector) : MemoryMetric → GaugeMetric ℚ
  | .total => c.memoryTotal
  | .used => c.memoryUsed
  | .free => c.memoryFree
  | .usagePercent => c.memoryUsagePercent
  | .swapTotal => c.swapTotal
  | .swapUsed => c.swapUsed
  | .swapUsagePercent => c.swapUsagePercent

namespace MetricPointer

/-- What `getName` of the metric returns. -/
def name : MetricPointer → Bytes
  | .cpu metric => metric.name
  | .memory metric => metric.name

/-- What the constructor of `CpuCollector` registers, in its order: the usage, and that of each core
of its first reading. -/
def ofCpu (coreUsageSize : ℕ) : List MetricPointer :=
  .cpu .usage :: (List.range coreUsageSize).map fun i => .cpu (.coreUsage i)

/-- What the constructor of `MemoryCollector` registers, in its order. -/
def ofMemory : List MetricPointer :=
  [.memory .total, .memory .used, .memory .free, .memory .usagePercent, .memory .swapTotal,
    .memory .swapUsed, .memory .swapUsagePercent]

end MetricPointer

/-- `metrics_` of a `CpuCollector`. -/
def CpuCollector.registry (c : CpuCollector) : MetricRegistry MetricPointer :=
  .ofMetrics MetricPointer.name (MetricPointer.ofCpu c.coreUsageSize)

/-- `metrics_` of a `MemoryCollector`. -/
def MemoryCollector.registry : MetricRegistry MetricPointer :=
  .ofMetrics MetricPointer.name MetricPointer.ofMemory

end NetSentry
