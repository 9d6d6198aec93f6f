import NetSentry.Api.Equiv.ListingJson
import NetSentry.Api.Server
import NetSentry.Core.Equiv.MetricRegistry
import NetSentry.Main.MetricTask

/-!
# What the metric task stores

* `metricPoints_exact`: a point for each metric of the collectors, in an order that depends on the
  number of cores alone, which is that of the listing of the API.
* `getMetric_usage`, `getMetric_usagePercent`: the metrics that the alerts are about are there.
-/

namespace NetSentry

namespace MetricTask

open Bytes MetricPointer RestApi

variable {μ : Type*}

/-! ### Listings -/

/-- What a loop over the names of a collector finds: its metrics, in the order of their names. -/
theorem filterMap_getMetricNames {β : Type*} (r : MetricRegistry μ) (f : Bytes → μ → β) :
    (r.getMetricNames.filterMap fun name => (r.getMetric name).map (f name))
      = r.metrics.entries.map fun entry => f entry.1 entry.2 := by
  rw [MetricRegistry.getMetricNames, List.filterMap_map, ← List.filterMap_eq_map]
  refine List.filterMap_congr fun entry hentry => ?_
  show (r.getMetric entry.1).map (f entry.1) = some (f entry.1 entry.2)
  rw [MetricRegistry.getMetric_eq_some_iff.mpr hentry]
  rfl

theorem presentMetrics_metricList (registries : List (MetricRegistry μ))
    (value : μ → FiniteDouble) :
    presentMetrics (registries.map fun r => metricList r value)
      = registries.flatMap fun r =>
          r.metrics.entries.map fun entry => (entry.1, value entry.2) := by
  rw [presentMetrics, ← List.flatMap_def, List.filterMap_flatMap]
  refine List.flatMap_congr fun r _ => ?_
  have hentries := filterMap_getMetricNames r fun name metric => (name, value metric)
  rw [metricList, List.filterMap_map, ← hentries]
  refine List.filterMap_congr fun name _ => ?_
  show ((r.getMetric name).map value).map (Prod.mk name) = _
  rw [Option.map_map]
  rfl

theorem metricPoints_eq (registries : List (MetricRegistry μ)) (value : μ → ℚ) (now : Int64) :
    metricPoints registries value now
      = registries.flatMap fun r => r.metrics.entries.map fun entry =>
        { metricName := entry.1, value := value entry.2, timestamp := now } := by
  refine List.flatMap_congr fun r _ => ?_
  have hentries := filterMap_getMetricNames r fun name metric =>
    ({ metricName := name, value := value metric, timestamp := now } : MetricDataPoint)
  rw [← hentries]
  refine List.filterMap_congr fun name _ => ?_
  rw [metricPoint]
  cases r.getMetric name <;> rfl

/-! ### The collectors of `main` -/

/-- The metric `cpu.usage`, which the alerts about the processor are about. -/
theorem getMetric_usage (cpu : CpuCollector) :
    cpu.registry.getMetric (ascii "cpu.usage") = some (.cpu .usage) :=
  (MetricRegistry.getMetric_ofMetrics fun _ _ _ _ h => name_injective h).mpr
    ⟨List.mem_cons_self, rfl⟩

/-- The metric `memory.usage_percent`, which the alerts about the memory are about. -/
theorem getMetric_usagePercent :
    MemoryCollector.registry.getMetric (ascii "memory.usage_percent")
      = some (.memory .usagePercent) :=
  (MetricRegistry.getMetric_ofMetrics fun _ _ _ _ h => name_injective h).mpr ⟨by decide, rfl⟩

/-- The gauges of the memory by their names. -/
def memoryOrder : List MetricPointer :=
  [.memory .free, .memory .swapTotal, .memory .swapUsagePercent, .memory .swapUsed, .memory .total,
    .memory .usagePercent, .memory .used]

theorem entries_memory : MemoryCollector.registry.metrics.entries
    = memoryOrder.map fun metric => (metric.name, metric) := by
  decide +kernel

/-- A registry of the collectors lists each metric with its name. -/
theorem entries_ofMetrics (metrics : List MetricPointer) :
    (MetricRegistry.ofMetrics name metrics).metrics.entries
      = ((MetricRegistry.ofMetrics name metrics).metrics.entries.map Prod.snd).map
        fun metric => (metric.name, metric) := by
  rw [List.map_map]
  refine (List.map_id _).symm.trans (List.map_congr_left fun entry hentry => ?_)
  have hname := ((MetricRegistry.mem_ofMetrics fun _ _ _ _ h => name_injective h).mp hentry).2
  exact Prod.ext hname rfl

/-- **The task stores every metric once.**  However many cores there are, one order of the metrics,
in which those of the processor come first, and in which the names ascend for each collector, is
that of the points that the task stores and that of the objects that the API lists, whatever the
values are; and no two points have one name. -/
theorem metricPoints_exact (cpu : CpuCollector) :
    ∃ cpuOrder : List MetricPointer, cpuOrder.Perm (ofCpu cpu.coreUsageSize) ∧
      (cpuOrder.map name).Pairwise (· < ·) ∧ (memoryOrder.map name).Pairwise (· < ·) ∧
      ((cpuOrder ++ memoryOrder).map name).Nodup ∧
      (∀ value now, metricPoints (collectors cpu) value now
        = (cpuOrder ++ memoryOrder).map fun metric =>
          { metricName := metric.name, value := value metric, timestamp := now }) ∧
      ∀ value : MetricPointer → FiniteDouble,
        presentMetrics ((collectors cpu).map fun r => metricList r value)
          = (cpuOrder ++ memoryOrder).map fun metric => (metric.name, value metric) := by
  set cpuOrder := cpu.registry.metrics.entries.map Prod.snd with hcpuOrder
  have hinj : ∀ m ∈ ofCpu cpu.coreUsageSize, ∀ m' ∈ ofCpu cpu.coreUsageSize,
      m.name = m'.name → m = m' := fun _ _ _ _ h => name_injective h
  have hperm : cpuOrder.Perm (ofCpu cpu.coreUsageSize) :=
    MetricRegistry.perm_ofMetrics hinj (nodup_ofCpu _)
  have hentries : cpu.registry.metrics.entries
      = cpuOrder.map fun metric => (metric.name, metric) := entries_ofMetrics _
  have hsorted : (cpuOrder.map name).Pairwise (· < ·) := by
    have hnames := cpu.registry.pairwise_getMetricNames
    rwa [MetricRegistry.getMetricNames, hentries, List.map_map] at hnames
  clear_value cpuOrder
  refine ⟨cpuOrder, hperm, hsorted, by decide +kernel, ?_, fun value now => ?_, fun value => ?_⟩
  · -- the metrics of the two collectors are different
    refine List.Nodup.map name_injective ((hperm.append_right _).nodup_iff.mpr ?_)
    refine List.nodup_append.mpr ⟨nodup_ofCpu _, by decide, ?_⟩
    rintro m hm m' hm' rfl
    have hcpu : ∀ m ∈ ofCpu cpu.coreUsageSize, ∃ metric, m = .cpu metric := by
      intro m hm
      rcases List.mem_cons.mp hm with rfl | hm
      · exact ⟨_, rfl⟩
      · obtain ⟨i, -, rfl⟩ := List.mem_map.mp hm
        exact ⟨_, rfl⟩
    obtain ⟨metric, rfl⟩ := hcpu m hm
    simp [memoryOrder] at hm'
  · rw [metricPoints_eq, collectors, List.flatMap_cons, List.flatMap_singleton, hentries,
      entries_memory, List.map_map, List.map_map, List.map_append]
    rfl
  · rw [presentMetrics_metricList, collectors, List.flatMap_cons, List.flatMap_singleton, hentries,
      entries_memory, List.map_map, List.map_map, List.map_append]
    rfl

end MetricTask

end NetSentry
