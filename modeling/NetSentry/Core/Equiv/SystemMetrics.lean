import Mathlib.Algebra.Order.Group.Unbundled.Abs
import Mathlib.Algebra.Order.Group.Unbundled.Int
import Mathlib.Data.Rat.Defs
import NetSentry.Core.SystemMetrics
import NetSentry.Lib.KeyedFold

/-!
# The history of a metric

* `records_calls`: after any calls, with any readings of the clock, the history has the greatest
  readings with what was stored at them last, and the lookups answer from it.
* `nearest_iff`: a lookup gives the nearest sample where the next one is not farther than the one
  before, or has its value.
* `endsCurrent_iff`: from the greatest reading on, a lookup gives the current value where the
  last call with that reading stored it.

A run is seen as the list of its samples: the reading that each call took, and the value that it
stored.  `Keeps` is what the history has of them.
-/

namespace NetSentry

namespace Metric

open OrderedMap KeyedFold

variable {ν : Type*}

/-! ### The statement -/

/-- The readings of the clock. -/
def readings (samples : List (ℤ × ν)) : Finset ℤ := keysOf samples

/-- The value stored by the last call that took this reading. -/
def stored (samples : List (ℤ × ν)) (reading : ℤ) : Option ν := lastOf samples reading

/-- The readings that stay in the history: the thousand greatest. -/
def retained (samples : List (ℤ × ν)) : Finset ℤ := newest 1000 (readings samples)

/-- What the samples leave in the history, and what is then answered. -/
structure Records [Zero ν] (samples : List (ℤ × ν)) (history : OrderedMap ℤ ν)
    (getValueAt : ℤ → Option ν) (getCurrentValue : ν) : Prop where
  history : ∀ r v, (r, v) ∈ history.entries ↔ r ∈ retained samples ∧ stored samples r = some v
  atLeast : ∀ t r, IsLeast {r' | r' ∈ retained samples ∧ t ≤ r'} r →
    getValueAt t = stored samples r
  beyond : ∀ t r, (∀ r' ∈ retained samples, r' < t) → IsGreatest (retained samples : Set ℤ) r →
    getValueAt t = stored samples r
  nothing : ∀ t, getValueAt t = none ↔ samples = []
  current : getCurrentValue = (samples.getLast?.map Prod.snd).getD 0

end Metric

/-- The samples of the calls of a gauge. -/
def GaugeMetric.samples {ν : Type*} (calls : List (ν × ℤ)) : List (ℤ × ν) := calls.map Prod.swap

namespace CounterMetric

variable {ν : Type*} [Add ν]

/-- The value that a call stores. -/
def Call.value (current : ν) : Call ν → ν
  | .update value => value
  | .increment amount => current + amount

/-- The samples of the calls of a counter that has this value. -/
def samples (current : ν) : List (Call ν × ℤ) → List (ℤ × ν)
  | [] => []
  | (c, now) :: calls => (now, c.value current) :: samples (c.value current) calls

end CounterMetric

/-- A gauge after calls of `update`. -/
def GaugeMetric.run {ν : Type*} (m : GaugeMetric ν) (calls : List (ν × ℤ)) : GaugeMetric ν :=
  calls.foldl (fun m c => m.update c.1 c.2) m

/-- A counter after calls of `update` and `increment`. -/
def CounterMetric.run {ν : Type*} [Add ν] (m : CounterMetric ν)
    (calls : List (CounterMetric.Call ν × ℤ)) : CounterMetric ν :=
  calls.foldl (fun m c => m.call c.2 c.1) m

namespace Metric

open OrderedMap KeyedFold

variable {ν : Type*} {samples : List (ℤ × ν)} {m : Metric ν}

/-! ### Samples -/

theorem readings_append (samples : List (ℤ × ν)) (now : ℤ) (v : ν) :
    readings (samples ++ [(now, v)]) = insert now (readings samples) := by
  rw [readings, keysOf, List.map_append, List.toFinset_append, Finset.union_comm]
  rfl

theorem stored_append (samples : List (ℤ × ν)) (now : ℤ) (v : ν) (r : ℤ) :
    stored (samples ++ [(now, v)]) r = if now = r then some v else stored samples r := by
  rw [stored, lastOf_append, lastOf_singleton]
  split_ifs with h
  · rfl
  · rfl

theorem exists_stored {r : ℤ} (h : r ∈ readings samples) : ∃ v, stored samples r = some v := by
  obtain ⟨v, hv⟩ := mem_keysOf.mp h
  exact Option.ne_none_iff_exists'.mp fun hnone => lastOf_eq_none_iff.mp hnone (r, v) hv rfl

/-! ### What the history keeps -/

/-- The history has the greatest readings, and their last values. -/
def Keeps (samples : List (ℤ × ν)) (history : OrderedMap ℤ ν) : Prop :=
  ∀ r v, (r, v) ∈ history.entries ↔ r ∈ retained samples ∧ stored samples r = some v

theorem Keeps.keys_eq {history : OrderedMap ℤ ν} (h : Keeps samples history) :
    history.keys = retained samples := by
  ext r
  rw [mem_keys]
  constructor
  · rintro ⟨v, hv⟩
    exact ((h r v).mp hv).1
  · intro hr
    obtain ⟨v, hv⟩ := exists_stored (newest_subset _ _ hr)
    exact ⟨v, (h r v).mpr ⟨hr, hv⟩⟩

theorem keeps_nil : Keeps [] (OrderedMap.empty : OrderedMap ℤ ν) := fun r v =>
  ⟨fun h => absurd h List.not_mem_nil, fun h => by cases h.2⟩

/-- **One call.**  A reading that has left the history cannot come back but by being taken again,
and then with a new value. -/
theorem Keeps.record (h : Keeps samples m.historicalValues) (value : ν) (now : ℤ) :
    Keeps (samples ++ [(now, value)]) (m.record value now).historicalValues := by
  intro r v
  have hkeys : (m.historicalValues.assign now value).keys = insert now (retained samples) := by
    rw [keys_assign, h.keys_eq]
  have hretained : newest historyLimit (insert now (retained samples))
      = retained (samples ++ [(now, value)]) := by
    rw [historyLimit, retained, newest_insert_newest, ← readings_append samples now value,
      retained]
  rw [Metric.record, mem_shrink, hkeys, hretained, mem_assign, stored_append, and_comm]
  apply and_congr_right
  intro hr
  by_cases hnow : now = r
  · simp [hnow, eq_comm]
  · have hold : r ∈ retained samples := by
      rw [← hretained] at hr
      exact (Finset.mem_insert.mp (newest_subset _ _ hr)).resolve_left (Ne.symm hnow)
    simp [hnow, Ne.symm hnow, h r v, hold]

/-! ### Lookups -/

theorem valueAt_of_isLeast {time : ℤ} {e : ℤ × ν} (hmem : e ∈ m.historicalValues.entries)
    (hleast : IsLeast {r | r ∈ m.historicalValues.keys ∧ time ≤ r} e.1) :
    m.valueAt time = some e.2 := by
  rw [valueAt, lowerBound_eq_some_iff.mpr ⟨hmem, hleast⟩]

theorem valueAt_of_isGreatest {time : ℤ} {e : ℤ × ν} (hmem : e ∈ m.historicalValues.entries)
    (hbeyond : ∀ r ∈ m.historicalValues.keys, r < time)
    (hgreatest : IsGreatest (m.historicalValues.keys : Set ℤ) e.1) :
    m.valueAt time = some e.2 := by
  have hnone : m.historicalValues.lowerBound time = none :=
    lowerBound_eq_none_iff.mpr fun e' he' => hbeyond _ (mem_keys_of_mem he')
  rw [valueAt, hnone, last_eq_some_iff.mpr ⟨hmem, hgreatest⟩]
  rfl

theorem valueAt_eq_none_iff {time : ℤ} :
    m.valueAt time = none ↔ m.historicalValues.entries = [] := by
  rw [valueAt]
  constructor
  · intro h
    split at h
    · exact List.getLast?_eq_none_iff.mp (Option.map_eq_none_iff.mp h)
    · cases h
  · intro h
    rw [lowerBound, last, h]
    rfl

/-- The entry of a reading that stays. -/
theorem Keeps.exists_entry {r : ℤ} (h : Keeps samples m.historicalValues)
    (hr : r ∈ retained samples) :
    ∃ v, (r, v) ∈ m.historicalValues.entries ∧ stored samples r = some v := by
  obtain ⟨v, hv⟩ := exists_stored (newest_subset _ _ hr)
  exact ⟨v, (h r v).mpr ⟨hr, hv⟩, hv⟩

theorem Keeps.entries_eq_nil_iff (h : Keeps samples m.historicalValues) :
    m.historicalValues.entries = [] ↔ samples = [] := by
  constructor
  · intro hnil
    by_contra hne
    obtain ⟨s, hs⟩ := List.exists_mem_of_ne_nil samples hne
    have hreading : s.1 ∈ readings samples := mem_keysOf.mpr ⟨s.2, hs⟩
    have hgreatest := Finset.isGreatest_max' (readings samples) ⟨_, hreading⟩
    obtain ⟨v, hv, -⟩ := h.exists_entry (mem_newest_of_isGreatest hgreatest (by decide))
    rw [hnil] at hv
    cases hv
  · intro hnil
    refine List.eq_nil_iff_forall_not_mem.mpr fun e he => ?_
    have hstored := ((h e.1 e.2).mp he).2
    rw [hnil] at hstored
    cases hstored

/-- **Lookups answer from what the history keeps.** -/
theorem Keeps.records [Zero ν] (h : Keeps samples m.historicalValues)
    (hcurrent : m.currentValue = (samples.getLast?.map Prod.snd).getD 0) :
    Records samples m.historicalValues m.valueAt m.currentValue where
  history := h
  atLeast t r hr := by
    obtain ⟨v, hentry, hv⟩ := h.exists_entry hr.1.1
    rw [hv]
    exact valueAt_of_isLeast hentry (by rwa [h.keys_eq])
  beyond t r hbeyond hr := by
    obtain ⟨v, hentry, hv⟩ := h.exists_entry hr.1
    rw [hv]
    exact valueAt_of_isGreatest hentry (by rwa [h.keys_eq]) (by rwa [h.keys_eq])
  nothing t := by rw [valueAt_eq_none_iff, h.entries_eq_nil_iff]
  current := hcurrent

/-! ### Runs -/

/-- What has been recorded is in the history, and the last of it is the current value. -/
structure Recorded [Zero ν] (samples : List (ℤ × ν)) (m : Metric ν) : Prop where
  keeps : Keeps samples m.historicalValues
  current : m.currentValue = (samples.getLast?.map Prod.snd).getD 0

theorem recorded_create [Zero ν] (name : Bytes) (type : MetricType) (now : ℤ) :
    Recorded [] (Metric.create name type now : Metric ν) := ⟨keeps_nil, rfl⟩

theorem Recorded.record [Zero ν] (h : Recorded samples m) (value : ν) (now : ℤ) :
    Recorded (samples ++ [(now, value)]) (m.record value now) where
  keeps := h.keeps.record value now
  current := by rw [List.getLast?_concat]; rfl

end Metric

open NetSentry.Metric

section Runs

variable {ν : Type*} [Zero ν]

theorem GaugeMetric.recorded_run {m : GaugeMetric ν} {samples : List (ℤ × ν)}
    (h : Recorded samples m) (calls : List (ν × ℤ)) :
    Recorded (samples ++ GaugeMetric.samples calls) (m.run calls) := by
  induction calls generalizing m samples with
  | nil => rwa [GaugeMetric.samples, List.map_nil, List.append_nil]
  | cons c calls ih =>
    have hnext := ih (h.record c.1 c.2)
    rwa [List.append_assoc] at hnext

theorem CounterMetric.recorded_run [Add ν] {m : CounterMetric ν} {samples : List (ℤ × ν)}
    (h : Recorded samples m) (calls : List (CounterMetric.Call ν × ℤ)) :
    Recorded (samples ++ CounterMetric.samples m.currentValue calls) (m.run calls) := by
  induction calls generalizing m samples with
  | nil => rwa [CounterMetric.samples, List.append_nil]
  | cons c calls ih =>
    obtain ⟨c, now⟩ := c
    have hcall : m.call now c = Metric.record m (c.value m.currentValue) now := by
      cases c <;> rfl
    have hvalue : (m.call now c).currentValue = c.value m.currentValue := by rw [hcall]; rfl
    have hnext := ih (h.record (c.value m.currentValue) now)
    rw [List.append_assoc, ← hcall, hvalue] at hnext
    exact hnext

/-- **The history of a metric.** -/
theorem records_calls [Add ν] (name : Bytes) (created : ℤ) :
    (∀ calls : List (ν × ℤ),
      let m := (GaugeMetric.create name created).run calls
      Records (GaugeMetric.samples calls) m.historicalValues m.getValueAt m.getCurrentValue)
    ∧ ∀ calls : List (CounterMetric.Call ν × ℤ),
      let m := (CounterMetric.create name created).run calls
      Records (CounterMetric.samples 0 calls) m.historicalValues m.getValueAt
        m.getCurrentValue := by
  constructor
  · intro calls
    have h := GaugeMetric.recorded_run (recorded_create name .gauge created) calls
    exact h.keeps.records h.current
  · intro calls
    have h := CounterMetric.recorded_run (recorded_create name .counter created) calls
    exact h.keeps.records h.current

end Runs

/-! ### The nearest sample -/

variable {ν : Type*}

namespace Metric

open OrderedMap

variable {m : Metric ν}

/-- Where there is a next sample, a lookup gives it, and else the greatest one. -/
theorem exists_valueAt (hne : m.historicalValues.entries ≠ []) (time : ℤ) :
    ∃ e ∈ m.historicalValues.entries, m.valueAt time = some e.2
      ∧ (IsLeast {r | r ∈ m.historicalValues.keys ∧ time ≤ r} e.1
        ∨ (∀ r ∈ m.historicalValues.keys, r < time)
          ∧ IsGreatest (m.historicalValues.keys : Set ℤ) e.1) := by
  cases hbound : m.historicalValues.lowerBound time with
  | some e =>
    obtain ⟨hmem, hleast⟩ := lowerBound_eq_some_iff.mp hbound
    exact ⟨e, hmem, valueAt_of_isLeast hmem hleast, Or.inl hleast⟩
  | none =>
    obtain ⟨e, hlast⟩ := Option.ne_none_iff_exists'.mp
      (List.getLast?_eq_none_iff.not.mpr hne)
    obtain ⟨hmem, hgreatest⟩ := isGreatest_of_last hlast
    have hbeyond : ∀ r ∈ m.historicalValues.keys, r < time := fun r hr => by
      obtain ⟨v, hv⟩ := mem_keys.mp hr
      exact lowerBound_eq_none_iff.mp hbound _ hv
    exact ⟨e, hmem, valueAt_of_isGreatest hmem hbeyond hgreatest, Or.inr ⟨hbeyond, hgreatest⟩⟩

/-- The answer is the value of a sample that no other is nearer than. -/
def Nearest (m : Metric ν) (time : ℤ) (answer : Option ν) : Prop :=
  ∃ e ∈ m.historicalValues.entries, answer = some e.2
    ∧ ∀ e' ∈ m.historicalValues.entries, |e.1 - time| ≤ |e'.1 - time|

/-- The sample from this time on is not farther than the one before it, or has the same value. -/
def NextIsNearest (m : Metric ν) (time : ℤ) : Prop :=
  ∀ before ∈ m.historicalValues.entries, ∀ next ∈ m.historicalValues.entries,
    IsGreatest {r | r ∈ m.historicalValues.keys ∧ r < time} before.1 →
    IsLeast {r | r ∈ m.historicalValues.keys ∧ time ≤ r} next.1 →
    next.1 - time ≤ time - before.1 ∨ next.2 = before.2

theorem distance_le_of_le {time a b : ℤ} (ha : time ≤ a) (h : a ≤ b) : |a - time| ≤ |b - time| := by
  rw [abs_of_nonneg (by omega), abs_of_nonneg (by omega)]
  omega

theorem distance_le_of_ge {time a b : ℤ} (ha : a < time) (h : b ≤ a) : |a - time| ≤ |b - time| := by
  rw [abs_of_nonpos (by omega), abs_of_nonpos (by omega)]
  omega

theorem distance_le_iff {time before next : ℤ} (hbefore : before < time) (hnext : time ≤ next) :
    |next - time| ≤ |before - time| ↔ next - time ≤ time - before := by
  rw [abs_of_nonneg (by omega), abs_of_nonpos (by omega), neg_sub]

/-- A sample that no other is nearer than is the next one or the one before. -/
theorem nearest_of_next {time : ℤ} {e : ℤ × ν} (hmem : e ∈ m.historicalValues.entries)
    (hleast : IsLeast {r | r ∈ m.historicalValues.keys ∧ time ≤ r} e.1)
    (hbefore : ∀ r ∈ m.historicalValues.keys, r < time → |e.1 - time| ≤ |r - time|) :
    Nearest m time (some e.2) := by
  refine ⟨e, hmem, rfl, fun e' he' => ?_⟩
  rcases lt_or_ge e'.1 time with hlt | hge
  · exact hbefore e'.1 (mem_keys_of_mem he') hlt
  · exact distance_le_of_le hleast.1.2 (hleast.2 ⟨mem_keys_of_mem he', hge⟩)

theorem nearest_of_before {time : ℤ} {e : ℤ × ν} (hmem : e ∈ m.historicalValues.entries)
    (hgreatest : IsGreatest {r | r ∈ m.historicalValues.keys ∧ r < time} e.1)
    (hnext : ∀ r ∈ m.historicalValues.keys, time ≤ r → |e.1 - time| ≤ |r - time|) :
    Nearest m time (some e.2) := by
  refine ⟨e, hmem, rfl, fun e' he' => ?_⟩
  rcases lt_or_ge e'.1 time with hlt | hge
  · exact distance_le_of_ge hgreatest.1.2 (hgreatest.2 ⟨mem_keys_of_mem he', hlt⟩)
  · exact hnext e'.1 (mem_keys_of_mem he') hge

/-- The last sample before a time, if there is one. -/
theorem exists_before (m : Metric ν) (time : ℤ) :
    (∀ r ∈ m.historicalValues.keys, time ≤ r)
      ∨ ∃ e ∈ m.historicalValues.entries,
        IsGreatest {r | r ∈ m.historicalValues.keys ∧ r < time} e.1 := by
  rcases (m.historicalValues.keys.filter (· < time)).eq_empty_or_nonempty with hnone | hsome
  · exact Or.inl fun r hr => not_lt.mp (Finset.filter_eq_empty_iff.mp hnone hr)
  · have hgreatest := Finset.isGreatest_max' _ hsome
    rw [Finset.coe_filter] at hgreatest
    obtain ⟨v, hv⟩ := mem_keys.mp hgreatest.1.1
    exact Or.inr ⟨(_, v), hv, hgreatest⟩

/-- Where the sample before is nearer than the next one, what is nearest has its value. -/
theorem value_eq_of_farther {time : ℤ} {before next : ℤ × ν}
    (hbefore : before ∈ m.historicalValues.entries)
    (hgreatest : IsGreatest {r | r ∈ m.historicalValues.keys ∧ r < time} before.1)
    (hleast : IsLeast {r | r ∈ m.historicalValues.keys ∧ time ≤ r} next.1)
    (hfarther : |before.1 - time| < |next.1 - time|) {answer : Option ν}
    (h : Nearest m time answer) : answer = some before.2 := by
  obtain ⟨near, hnear, rfl, hmin⟩ := h
  -- what is nearest cannot be from this time on, so it is the sample before
  have hlt : near.1 < time := by
    by_contra hge
    have hle := hleast.2 ⟨mem_keys_of_mem hnear, not_lt.mp hge⟩
    have hfar := hfarther.trans_le (distance_le_of_le hleast.1.2 hle)
    exact absurd (hmin before hbefore) (not_le.mpr hfar)
  have hle : near.1 ≤ before.1 := hgreatest.2 ⟨mem_keys_of_mem hnear, hlt⟩
  have hkey : near.1 = before.1 := by
    have hnearest := hmin before hbefore
    have hbeforeLt : before.1 < time := hgreatest.1.2
    rw [abs_of_nonpos (by omega), abs_of_nonpos (by omega)] at hnearest
    omega
  rw [eq_of_mem hnear hbefore hkey]

/-- A lookup that gives the next sample gives the nearest one, where the next one is not farther
than the one before or has its value. -/
theorem nearest_of_nextIsNearest {time : ℤ} {e : ℤ × ν} (hmem : e ∈ m.historicalValues.entries)
    (hleast : IsLeast {r | r ∈ m.historicalValues.keys ∧ time ≤ r} e.1)
    (h : NextIsNearest m time) : Nearest m time (some e.2) := by
  rcases exists_before m time with hnone | ⟨before, hbefore, hgreatest⟩
  · exact nearest_of_next hmem hleast fun r hr hlt => absurd hlt (not_lt.mpr (hnone r hr))
  · by_cases hnear : |e.1 - time| ≤ |before.1 - time|
    · refine nearest_of_next hmem hleast fun r hr hlt => hnear.trans ?_
      exact distance_le_of_ge hgreatest.1.2 (hgreatest.2 ⟨hr, hlt⟩)
    · have hsame : e.2 = before.2 := (h before hbefore e hmem hgreatest hleast).resolve_left
        fun hle => hnear ((distance_le_iff hgreatest.1.2 hleast.1.2).mpr hle)
      rw [hsame]
      refine nearest_of_before hbefore hgreatest fun r hr hge => (not_le.mp hnear).le.trans ?_
      exact distance_le_of_le hleast.1.2 (hleast.2 ⟨hr, hge⟩)

theorem nearest_valueAt_iff (hne : m.historicalValues.entries ≠ []) (time : ℤ) :
    Nearest m time (m.valueAt time) ↔ NextIsNearest m time := by
  obtain ⟨e, hmem, hvalue, hcase⟩ := exists_valueAt hne time
  rw [hvalue]
  constructor
  · intro hnearest before hbefore next hnext hgreatest hleast
    have hnextEq : e = next := by
      rcases hcase with hleast' | ⟨hbeyond, -⟩
      · exact eq_of_mem hmem hnext (hleast'.unique hleast)
      · exact absurd hleast.1.2 (not_le.mpr (hbeyond _ hleast.1.1))
    rw [or_iff_not_imp_left, ← distance_le_iff hgreatest.1.2 hleast.1.2, not_le]
    intro hfarther
    rw [← hnextEq]
    exact Option.some.inj (value_eq_of_farther hbefore hgreatest hleast hfarther hnearest)
  · intro hcond
    rcases hcase with hleast | ⟨hbeyond, hgreatest⟩
    · exact nearest_of_nextIsNearest hmem hleast hcond
    · -- every sample is before this time
      refine nearest_of_before hmem ⟨⟨hgreatest.1, hbeyond _ hgreatest.1⟩, fun r hr => ?_⟩ ?_
      · exact hgreatest.2 hr.1
      · exact fun r hr hge => absurd hge (not_le.mpr (hbeyond r hr))

end Metric

/-- **A lookup gives the nearest sample** where the next one is not farther than the one before. -/
theorem nearest_iff (m : Metric ν) (hne : m.historicalValues.entries ≠ []) (time : ℤ) :
    (Nearest m time (GaugeMetric.getValueAt m time) ↔ NextIsNearest m time)
      ∧ (Nearest m time (CounterMetric.getValueAt m time) ↔ NextIsNearest m time) :=
  ⟨nearest_valueAt_iff hne time, nearest_valueAt_iff hne time⟩

/-- Two updates, at the readings `0` and `10`. -/
def twoUpdates : GaugeMetric ℚ := (GaugeMetric.create [] 0).run [(1, 0), (2, 10)]

theorem entries_twoUpdates : twoUpdates.historicalValues.entries = [(0, 1), (10, 2)] := by decide

theorem nearest_iff_twoUpdates :
    twoUpdates.historicalValues.entries ≠ []
      ∧ Nearest twoUpdates 6 (GaugeMetric.getValueAt twoUpdates 6) := by
  have hne : twoUpdates.historicalValues.entries ≠ [] := by decide
  refine ⟨hne, (nearest_iff twoUpdates hne 6).1.mpr ?_⟩
  intro before hbefore next hnext hgreatest hleast
  rw [entries_twoUpdates, List.mem_pair] at hbefore hnext
  rcases hbefore with rfl | rfl
  · rcases hnext with rfl | rfl
    · exact absurd hleast.1.2 (by decide)
    · exact Or.inl (by decide)
  · exact absurd hgreatest.1.2 (by decide)

/-- One tick after the first sample, a lookup gives the second one. -/
theorem not_nearest_twoUpdates :
    ¬ ∀ m : GaugeMetric ℚ, m.historicalValues.entries ≠ [] → ∀ time,
      Nearest m time (GaugeMetric.getValueAt m time) := by
  intro h
  obtain ⟨e, hmem, hvalue, hmin⟩ := h twoUpdates (by decide) 1
  have hfirst : ((0, 1) : ℤ × ℚ) ∈ twoUpdates.historicalValues.entries := by decide
  rw [entries_twoUpdates, List.mem_pair] at hmem
  rcases hmem with rfl | rfl
  · exact absurd hvalue (by decide)
  · exact absurd (hmin _ hfirst) (by decide)

/-! ### The newest sample -/

section Newest

open OrderedMap

variable [Zero ν]

/-- From the greatest reading on, a lookup gives what was stored at it last. -/
theorem Metric.Recorded.valueAt_of_isGreatest {samples : List (ℤ × ν)} {m : Metric ν}
    (h : Recorded samples m) {r time : ℤ} (hr : IsGreatest (readings samples : Set ℤ) r)
    (htime : r ≤ time) : m.valueAt time = stored samples r := by
  have hstay : r ∈ retained samples := mem_newest_of_isGreatest hr (by decide)
  have hmax : IsGreatest (retained samples : Set ℤ) r :=
    ⟨hstay, fun r' hr' => hr.2 (newest_subset _ _ hr')⟩
  have hrecords := h.keeps.records h.current
  rcases htime.eq_or_lt with rfl | hlt
  · exact hrecords.atLeast r r ⟨⟨hstay, le_refl r⟩, fun r' hr' => hr'.2⟩
  · exact hrecords.beyond time r (fun r' hr' => (hmax.2 hr').trans_lt hlt) hmax

/-- From the greatest reading on, every lookup gives the current value. -/
def EndsCurrent (samples : List (ℤ × ν)) (getValueAt : ℤ → Option ν) (getCurrentValue : ν) : Prop :=
  ∀ time, (∀ r ∈ readings samples, r ≤ time) → getValueAt time = some getCurrentValue

/-- The last call that took the greatest reading stored what the last call of all stored. -/
def EndsAtGreatest (samples : List (ℤ × ν)) : Prop :=
  ∃ r, IsGreatest (readings samples : Set ℤ) r
    ∧ stored samples r = samples.getLast?.map Prod.snd

theorem Metric.Recorded.endsCurrent_iff_endsAtGreatest {samples : List (ℤ × ν)} {m : Metric ν}
    (h : Recorded samples m) :
    EndsCurrent samples m.valueAt m.currentValue ↔ EndsAtGreatest samples := by
  have hcurrent := h.current
  rcases List.eq_nil_or_concat samples with rfl | ⟨before, s, rfl⟩
  · constructor
    · intro hall
      have hnone := (h.keeps.records h.current).nothing 0
      rw [hall 0 fun r hr => absurd hr (Finset.notMem_empty r)] at hnone
      exact absurd (hnone.mpr rfl) (by simp)
    · rintro ⟨r, hr, -⟩
      exact absurd hr.1 (Finset.notMem_empty r)
  · rw [List.concat_eq_append] at h hcurrent ⊢
    have hlast : (before ++ [s]).getLast?.map Prod.snd = some m.currentValue := by
      rw [hcurrent, List.getLast?_concat]
      rfl
    have hmem : s.1 ∈ readings (before ++ [s]) := by
      rw [readings_append]
      exact Finset.mem_insert_self s.1 _
    have hmax := Finset.isGreatest_max' (readings (before ++ [s])) ⟨_, hmem⟩
    constructor
    · intro hall
      refine ⟨_, hmax, ?_⟩
      rw [← h.valueAt_of_isGreatest hmax le_rfl, hall _ fun r hr => hmax.2 hr, hlast]
    · rintro ⟨r, hr, hstored⟩ time htime
      rw [h.valueAt_of_isGreatest hr (htime r hr.1), hstored, hlast]

/-- **The newest sample is the current value** where the last call with the greatest reading stored
it. -/
theorem endsCurrent_iff [Add ν] (name : Bytes) (created : ℤ) :
    (∀ calls : List (ν × ℤ),
      let m := (GaugeMetric.create name created).run calls
      EndsCurrent (GaugeMetric.samples calls) m.getValueAt m.getCurrentValue
        ↔ EndsAtGreatest (GaugeMetric.samples calls))
    ∧ ∀ calls : List (CounterMetric.Call ν × ℤ),
      let m := (CounterMetric.create name created).run calls
      EndsCurrent (CounterMetric.samples 0 calls) m.getValueAt m.getCurrentValue
        ↔ EndsAtGreatest (CounterMetric.samples 0 calls) := by
  constructor
  · intro calls
    have h := GaugeMetric.recorded_run (recorded_create name .gauge created) calls
    exact h.endsCurrent_iff_endsAtGreatest
  · intro calls
    have h := CounterMetric.recorded_run (recorded_create name .counter created) calls
    exact h.endsCurrent_iff_endsAtGreatest

end Newest

/-- The clock is stepped back between two updates. -/
theorem not_endsCurrent_steppedBack :
    ¬ ∀ calls : List (ℚ × ℤ), calls ≠ [] →
      let m := (GaugeMetric.create [] 0).run calls
      EndsCurrent (GaugeMetric.samples calls) m.getValueAt m.getCurrentValue := by
  intro h
  have hvalue := h [(1, 5), (2, 3)] (by decide) 5 (by decide)
  revert hvalue
  decide

end NetSentry
