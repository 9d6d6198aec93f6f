import NetSentry.Core.MetricRegistry

/-!
# What the collectors register

* `getMetric_eq_some_iff`, `pairwise_getMetricNames`: a registry finds what it lists, by ascending
  names.
* `getMetric_ofMetrics`, `perm_ofMetrics`: what is registered under different names is found and
  listed, each metric once.
* `name_injective`: no two metrics of the collectors have one name.
* `name_gauge_collectAll`: a gauge is registered under the name that it has.
-/

namespace NetSentry

open Bytes

namespace MetricRegistry

variable {μ : Type*} {r : MetricRegistry μ} {name : μ → Bytes} {metrics : List μ} {metric : μ}

/-! ### Registries -/

/-- **A metric is found** where it is listed. -/
theorem getMetric_eq_some_iff {n : Bytes} :
    r.getMetric n = some metric ↔ (n, metric) ∈ r.metrics.entries := by
  unfold getMetric
  constructor
  · intro h
    obtain ⟨⟨n', metric'⟩, hfind, rfl⟩ := Option.map_eq_some_iff.mp h
    have hname : n' = n := by simpa using List.find?_some hfind
    exact hname ▸ List.mem_of_find?_eq_some hfind
  · intro h
    cases hfind : r.metrics.entries.find? (·.1 = n) with
    | none =>
      have hnot := List.find?_eq_none.mp hfind (n, metric) h
      exact absurd (decide_eq_true rfl) hnot
    | some entry =>
      have hname : entry.1 = n := by simpa using List.find?_some hfind
      rw [OrderedMap.eq_of_mem (List.mem_of_find?_eq_some hfind) h hname]
      rfl

/-- The names ascend. -/
theorem pairwise_getMetricNames (r : MetricRegistry μ) : r.getMetricNames.Pairwise (· < ·) :=
  List.pairwise_map.mpr r.metrics.sorted

theorem ofMetrics_concat (name : μ → Bytes) (metrics : List μ) (metric : μ) :
    ofMetrics name (metrics ++ [metric])
      = (ofMetrics name metrics).registerMetric (name metric) metric := by
  rw [ofMetrics, List.foldl_append]
  rfl

/-- What is registered under different names is there. -/
theorem mem_ofMetrics (h : ∀ m ∈ metrics, ∀ m' ∈ metrics, name m = name m' → m = m')
    {entry : Bytes × μ} :
    entry ∈ (ofMetrics name metrics).metrics.entries
      ↔ entry.2 ∈ metrics ∧ entry.1 = name entry.2 := by
  induction metrics using List.reverseRecOn with
  | nil => exact iff_of_false List.not_mem_nil fun hmem => List.not_mem_nil hmem.1
  | append_singleton metrics metric ih =>
    have hrest : ∀ m ∈ metrics, ∀ m' ∈ metrics, name m = name m' → m = m' := fun m hm m' hm' =>
      h m (List.mem_append_left _ hm) m' (List.mem_append_left _ hm')
    rw [ofMetrics_concat, registerMetric, OrderedMap.mem_assign, ih hrest]
    obtain ⟨n, m⟩ := entry
    constructor
    · rintro (hself | ⟨-, hmem, hname⟩)
      · obtain ⟨rfl, rfl⟩ := Prod.mk.inj hself
        exact ⟨List.mem_append_right _ List.mem_cons_self, rfl⟩
      · exact ⟨List.mem_append_left _ hmem, hname⟩
    · rintro ⟨hmem, hname⟩
      dsimp only at hmem hname
      subst hname
      by_cases hsame : name m = name metric
      · -- the metric with this name is the one that has been registered last
        have hlast : metric ∈ metrics ++ [metric] := List.mem_append_right _ List.mem_cons_self
        rw [h m hmem metric hlast hsame]
        exact .inl rfl
      · refine .inr ⟨hsame, (List.mem_append.mp hmem).resolve_right ?_, rfl⟩
        rintro hself
        exact hsame (congrArg name (List.mem_singleton.mp hself))

/-- **What is registered is found** under its name. -/
theorem getMetric_ofMetrics (h : ∀ m ∈ metrics, ∀ m' ∈ metrics, name m = name m' → m = m')
    {n : Bytes} :
    (ofMetrics name metrics).getMetric n = some metric ↔ metric ∈ metrics ∧ n = name metric := by
  rw [getMetric_eq_some_iff, mem_ofMetrics h]

/-- **What is registered is listed once.** -/
theorem perm_ofMetrics (h : ∀ m ∈ metrics, ∀ m' ∈ metrics, name m = name m' → m = m')
    (hnodup : metrics.Nodup) :
    ((ofMetrics name metrics).metrics.entries.map Prod.snd).Perm metrics := by
  have hentries : ((ofMetrics name metrics).metrics.entries.map Prod.snd).Nodup := by
    refine List.Nodup.map_on ?_ ((OrderedMap.nodup_map_fst
      (ofMetrics name metrics).metrics.sorted).of_map _)
    intro e he e' he' hsnd
    have hname := ((mem_ofMetrics h).mp he).2
    have hname' := ((mem_ofMetrics h).mp he').2
    exact OrderedMap.eq_of_mem he he' (hname.trans ((congrArg name hsnd).trans hname'.symm))
  refine (List.perm_ext_iff_of_nodup hentries hnodup).mpr fun m => ?_
  constructor
  · intro hm
    obtain ⟨e, he, rfl⟩ := List.mem_map.mp hm
    exact ((mem_ofMetrics h).mp he).1
  · intro hm
    exact List.mem_map.mpr ⟨(name m, m), (mem_ofMetrics h).mpr ⟨hm, rfl⟩, rfl⟩

end MetricRegistry

/-! ### The metrics of the collectors -/

theorem CpuCollector.CpuMetric.name_injective :
    Function.Injective CpuCollector.CpuMetric.name := by
  have hne : ∀ i, ascii "cpu.usage" ≠ ascii "cpu.core." ++ decimal i ++ ascii ".usage" := by
    intro i heq
    have hfifth := congrArg (·[4]?) heq
    rw [List.append_assoc] at hfifth
    cases hfifth
  rintro (_ | i) (_ | j) h
  · rfl
  · exact absurd h (hne j)
  · exact absurd h.symm (hne i)
  · have hdecimal := List.append_cancel_left (List.append_cancel_right h)
    rw [← digitsValue_decimal i, hdecimal, digitsValue_decimal]

theorem MemoryMetric.name_injective : Function.Injective MemoryMetric.name := by
  intro m m' h
  cases m <;> cases m' <;> first | rfl | exact absurd h (by decide)

/-- **No two metrics have one name.** -/
theorem MetricPointer.name_injective : Function.Injective MetricPointer.name := by
  have hcpu : ∀ m : CpuCollector.CpuMetric, m.name.head? = some 99 := by
    rintro (_ | i) <;> rfl
  have hmemory : ∀ m : MemoryMetric, m.name.head? = some 109 := by
    intro m
    cases m <;> rfl
  have hne : ∀ (m : CpuCollector.CpuMetric) (m' : MemoryMetric), m.name ≠ m'.name := by
    intro m m' heq
    have hhead := (hcpu m).symm.trans ((congrArg List.head? heq).trans (hmemory m'))
    exact absurd hhead (by decide)
  rintro (m | m) (m' | m') h
  · rw [CpuCollector.CpuMetric.name_injective h]
  · exact absurd h (hne m m')
  · exact absurd h.symm (hne m' m)
  · rw [MemoryMetric.name_injective h]

/-- What a collector registers is different. -/
theorem MetricPointer.nodup_ofCpu (coreUsageSize : ℕ) : (ofCpu coreUsageSize).Nodup := by
  refine List.nodup_cons.mpr ⟨?_, List.nodup_range.map ?_⟩
  · intro hmem
    obtain ⟨i, -, hi⟩ := List.mem_map.mp hmem
    cases hi
  · intro i j hij
    exact CpuCollector.CpuMetric.coreUsage.inj (MetricPointer.cpu.inj hij)

/-- **A gauge has the name** that it is registered under, after any collections. -/
theorem MemoryMetric.name_gauge_collectAll (m : MemoryMetric) (now : ℤ)
    (collections : List (MemoryCollector.Reading × (ℕ → ℤ))) :
    (m.gauge ((MemoryCollector.create now).collectAll collections)).name = m.name := by
  have hupdate : ∀ (gauge : GaugeMetric ℚ) used total time,
      (MemoryCollector.updatePercent gauge used total time).name = gauge.name := by
    intro gauge used total time
    unfold MemoryCollector.updatePercent
    split_ifs <;> rfl
  induction collections using List.reverseRecOn with
  | nil => cases m <;> rfl
  | append_singleton collections collection ih =>
    rw [MemoryCollector.collectAll, List.foldl_append]
    rw [MemoryCollector.collectAll] at ih
    cases m <;> first | exact (hupdate _ _ _ _).trans ih | exact ih

end NetSentry
