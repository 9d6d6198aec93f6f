import Mathlib.Data.List.Chain
import Mathlib.Tactic.NormNum
import NetSentry.Core.MemoryCollector

/-!
# Whether the gauges describe one reading

`collect` updates five gauges, and the two percentages only where the total is not zero.  Where it
is zero a percentage stays what an earlier reading has left.

* `describes_iff`: after every collection of a run the gauges describe its reading exactly when no
  reading with a total of zero comes right after one of whose total a part was used.
* `not_forall_describes`: a swap that is taken away.
-/

namespace NetSentry.MemoryCollector

open Bytes

/-! ### The statement -/

/-- The part of a total in percent, and zero where the total is zero. -/
def percentOf (used total : UInt64) : ℚ := if total = 0 then 0 else 100 * used.toNat / total.toNat

/-- The gauges have the values of one reading. -/
structure Describes (c : MemoryCollector) (stats : MemoryStats) : Prop where
  total : c.memoryTotal.getCurrentValue = megabytes stats.total
  used : c.memoryUsed.getCurrentValue = megabytes stats.used
  free : c.memoryFree.getCurrentValue = megabytes stats.free
  percent : c.memoryUsagePercent.getCurrentValue = percentOf stats.used stats.total
  swapTotal : c.swapTotal.getCurrentValue = megabytes stats.swapTotal
  swapUsed : c.swapUsed.getCurrentValue = megabytes stats.swapUsed
  swapPercent : c.swapUsagePercent.getCurrentValue = percentOf stats.swapUsed stats.swapTotal

/-- Where a total becomes zero, nothing of it was used. -/
def Follows (prev curr : MemoryStats) : Prop :=
  (curr.total = 0 → prev.total = 0 ∨ prev.used = 0) ∧
  (curr.swapTotal = 0 → prev.swapTotal = 0 ∨ prev.swapUsed = 0)

/-! ### One collection -/

theorem percentOf_eq_zero_iff (used total : UInt64) :
    percentOf used total = 0 ↔ total = 0 ∨ used = 0 := by
  unfold percentOf
  split_ifs with htotal
  · exact iff_of_true rfl (.inl htotal)
  · have hne : (total.toNat : ℚ) ≠ 0 := by
      intro hnull
      exact htotal (UInt64.toNat_inj.mp (by exact_mod_cast hnull))
    rw [div_eq_zero_iff, or_iff_left hne, or_iff_right htotal, mul_eq_zero,
      or_iff_right (by norm_num), Nat.cast_eq_zero]
    exact UInt64.toNat_inj (b := 0)

/-- **A percentage** is right after an update unless it was left out and the gauge did not show zero
before. -/
theorem updatePercent_eq_iff (gauge : GaugeMetric ℚ) (used total : UInt64) (now : ℤ) :
    (updatePercent gauge used total now).getCurrentValue = percentOf used total
      ↔ (total = 0 → gauge.getCurrentValue = 0) := by
  have hpos : 0 < total ↔ total ≠ 0 := UInt64.pos_iff_ne_zero
  unfold updatePercent percentOf
  by_cases htotal : total = 0
  · rw [if_neg (by rw [hpos]; exact not_not_intro htotal), if_pos htotal]
    exact ⟨fun h _ => h, fun h => h htotal⟩
  · rw [if_pos (hpos.mpr htotal), if_neg htotal]
    exact iff_of_true rfl fun h => absurd h htotal

/-- **One collection.** -/
theorem describes_collect_iff (c : MemoryCollector) (reading : Reading) (clock : ℕ → ℤ) :
    Describes (c.collect reading clock) (readMemoryStats reading)
      ↔ ((readMemoryStats reading).total = 0 → c.memoryUsagePercent.getCurrentValue = 0) ∧
        ((readMemoryStats reading).swapTotal = 0 → c.swapUsagePercent.getCurrentValue = 0) := by
  rw [← updatePercent_eq_iff c.memoryUsagePercent (readMemoryStats reading).used _ (clock 3),
    ← updatePercent_eq_iff c.swapUsagePercent (readMemoryStats reading).swapUsed _ (clock 6)]
  constructor
  · intro h
    exact ⟨h.percent, h.swapPercent⟩
  · rintro ⟨hpercent, hswapPercent⟩
    exact ⟨rfl, rfl, rfl, hpercent, rfl, rfl, hswapPercent⟩

/-- A collection right after one whose reading the gauges describe. -/
theorem describes_collect_iff_follows {c : MemoryCollector} {prev : MemoryStats}
    (h : Describes c prev) (reading : Reading) (clock : ℕ → ℤ) :
    Describes (c.collect reading clock) (readMemoryStats reading)
      ↔ Follows prev (readMemoryStats reading) := by
  rw [describes_collect_iff, h.percent, h.swapPercent, percentOf_eq_zero_iff,
    percentOf_eq_zero_iff]
  rfl

/-! ### Runs -/

/-- After every collection of a run the gauges describe its reading. -/
def DescribesThroughout (c : MemoryCollector) (collections : List (Reading × (ℕ → ℤ))) : Prop :=
  ∀ before last, before ++ [last] <+: collections →
    Describes (c.collectAll (before ++ [last])) (readMemoryStats last.1)

theorem describesThroughout_concat_iff (c : MemoryCollector)
    (collections : List (Reading × (ℕ → ℤ))) (last : Reading × (ℕ → ℤ)) :
    DescribesThroughout c (collections ++ [last])
      ↔ DescribesThroughout c collections ∧
        Describes (c.collectAll (collections ++ [last])) (readMemoryStats last.1) := by
  constructor
  · intro h
    refine ⟨?_, h collections last (List.prefix_refl _)⟩
    intro before x hprefix
    exact h before x (List.IsPrefix.trans hprefix (List.prefix_append _ _))
  · rintro ⟨hbefore, hlast⟩ before x hprefix
    rcases List.prefix_concat_iff.mp hprefix with heq | hprefix
    · obtain ⟨rfl, hx⟩ := List.append_inj' heq rfl
      obtain rfl := List.singleton_inj.mp hx
      exact hlast
    · exact hbefore before x hprefix

theorem collectAll_concat (c : MemoryCollector) (collections : List (Reading × (ℕ → ℤ)))
    (last : Reading × (ℕ → ℤ)) :
    c.collectAll (collections ++ [last]) = (c.collectAll collections).collect last.1 last.2 := by
  unfold collectAll
  rw [List.foldl_append, List.foldl_cons, List.foldl_nil]

/-- **When the gauges describe the latest reading**, after every collection: when no reading with a
total of zero comes right after one of whose total a part was used. -/
theorem describes_iff (now : ℤ) (collections : List (Reading × (ℕ → ℤ))) :
    DescribesThroughout (create now) collections
      ↔ List.IsChain Follows (collections.map fun collection => readMemoryStats collection.1) := by
  induction collections using List.reverseRecOn with
  | nil =>
    refine iff_of_true ?_ .nil
    intro before last hprefix
    cases List.append_ne_nil_of_right_ne_nil before (by simp) (List.prefix_nil.mp hprefix)
  | append_singleton collections last ih =>
    rw [describesThroughout_concat_iff, collectAll_concat]
    rcases List.eq_nil_or_concat collections with rfl | ⟨before, prev, rfl⟩
    · -- the gauges show zero before the first collection
      refine iff_of_true ⟨ih.mpr .nil, ?_⟩ (.singleton _)
      exact (describes_collect_iff _ _ _).mpr ⟨fun _ => rfl, fun _ => rfl⟩
    · rw [List.concat_eq_append] at ih ⊢
      have hchain : List.IsChain Follows
            ((before ++ [prev] ++ [last]).map fun collection => readMemoryStats collection.1)
          ↔ List.IsChain Follows
              ((before ++ [prev]).map fun collection => readMemoryStats collection.1) ∧
            Follows (readMemoryStats prev.1) (readMemoryStats last.1) := by
        simp only [List.map_append, List.map_cons, List.map_nil, List.append_assoc,
          List.singleton_append, List.isChain_append_cons_cons, List.IsChain.singleton, and_true]
      rw [hchain, ← ih]
      apply and_congr_right
      intro hbefore
      exact describes_collect_iff_follows (hbefore before prev (List.prefix_refl _)) _ _

/-- Half of the swap is in use. -/
def withSwap : Reading where
  meminfo := some (ascii "MemTotal: 1024 kB\nMemFree: 512 kB\nSwapTotal: 64 kB\nSwapFree: 32 kB\n")

/-- The swap has been taken away. -/
def withoutSwap : Reading where
  meminfo := some (ascii "MemTotal: 1024 kB\nMemFree: 512 kB\nSwapTotal: 0 kB\nSwapFree: 0 kB\n")

/-- The gauge still shows that half of it is in use. -/
theorem not_forall_describes :
    ¬ ∀ (now : ℤ) (collections : List (Reading × (ℕ → ℤ))),
      DescribesThroughout (create now) collections := by
  intro h
  have hswap := (h 0 [(withSwap, fun _ => 1), (withoutSwap, fun _ => 2)]
    [(withSwap, fun _ => 1)] (withoutSwap, fun _ => 2) (List.prefix_refl _)).swapPercent
  have hstale : ((create 0).collectAll
      ([(withSwap, fun _ => 1)] ++ [(withoutSwap, fun _ => 2)])).swapUsagePercent.getCurrentValue
        = 50 := by
    decide +kernel
  have hzero : percentOf (readMemoryStats withoutSwap).swapUsed
      (readMemoryStats withoutSwap).swapTotal = 0 := by
    decide +kernel
  rw [hstale, hzero] at hswap
  norm_num at hswap

end NetSentry.MemoryCollector
