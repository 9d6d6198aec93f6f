import Mathlib.Order.Interval.Set.Defs
import Mathlib.Tactic.Positivity
import NetSentry.Core.MemoryCollector
import NetSentry.Lib.KeyedFold
import NetSentry.Lib.Wrapping

/-!
# When the figures of the memory are consistent

`used` is what three differences of counters of 64 bits leave of `total`.  The four figures come
from four lines, each of which may be missing or say anything.

* `bounded_iff`: `used` is at most `total`, `swapUsed` at most `swapTotal` and what is published is
  a percentage exactly when the last figures of the lines leave it so, where those that are
  subtracted from the total are added up modulo `2 ^ 64`.
* `not_forall_bounded`: a container whose page cache is that of the host.

`readMemoryStats_eq` is what a text comes to: each figure is the last one that has its key.
-/

namespace NetSentry.MemoryCollector

open Bytes KeyedFold Wrapping

/-! ### The figures of a text -/

/-- The keys and the values of the lines. -/
def figures (reading : Reading) : List (Bytes × UInt64) :=
  (reading.meminfo.elim [] getlines).mapIdx fun pass line =>
    parseMemoryLine line (reading.uninitialised pass)

/-- The value of the last line with a key, or zero. -/
def figure (reading : Reading) (key : String) : UInt64 :=
  (lastOf (figures reading) (ascii key)).getD 0

theorem readLines_eq (uninitialised : ℕ → UInt64) (lines : List Bytes) (pass : ℕ)
    (stats : MemoryStats) :
    readLines uninitialised pass stats lines
      = (lines.mapIdx fun i line => parseMemoryLine line (uninitialised (pass + i))).foldl
        storeFigure stats := by
  induction lines generalizing pass stats with
  | nil => rfl
  | cons line lines ih =>
    rw [readLines, ih, List.mapIdx_cons, List.foldl_cons, Nat.add_zero]
    simp only [Nat.add_assoc, Nat.add_comm 1]
    rfl

/-- The loop stores the values of a key, and no others, in a field. -/
def Stores (field : MemoryStats → UInt64) (key : String) : Prop :=
  ∀ stats p, field (storeFigure stats p) = if p.1 = ascii key then p.2 else field stats

/-- Such a field ends up with the last value of its key. -/
theorem Stores.foldl {field : MemoryStats → UInt64} {key : String} (h : Stores field key)
    (pairs : List (Bytes × UInt64)) (stats : MemoryStats) :
    field (pairs.foldl storeFigure stats) = (lastOf pairs (ascii key)).getD (field stats) := by
  induction pairs using List.reverseRecOn with
  | nil => rfl
  | append_singleton pairs p ih =>
    rw [List.foldl_append, List.foldl_cons, List.foldl_nil, h, ih, lastOf_append,
      lastOf_singleton]
    split_ifs <;> rfl

theorem stores_of {field : MemoryStats → UInt64} {key : String}
    (hself : ∀ stats value, field (storeFigure stats (ascii key, value)) = value)
    (hother : ∀ stats k value, k ≠ ascii key → field (storeFigure stats (k, value)) = field stats) :
    Stores field key := by
  rintro stats ⟨k, value⟩
  by_cases hk : k = ascii key
  · rw [hk, hself, if_pos rfl]
  · rw [hother stats k value hk, if_neg hk]

/-- **The figures that the differences are made of.** -/
theorem stores_figures :
    Stores MemoryStats.total "MemTotal:" ∧ Stores MemoryStats.free "MemFree:" ∧
    Stores MemoryStats.buffers "Buffers:" ∧ Stores MemoryStats.cached "Cached:" ∧
    Stores MemoryStats.swapTotal "SwapTotal:" ∧ Stores MemoryStats.swapFree "SwapFree:" := by
  refine ⟨stores_of (fun _ _ => rfl) ?_, stores_of (fun _ _ => rfl) ?_,
    stores_of (fun _ _ => rfl) ?_, stores_of (fun _ _ => rfl) ?_,
    stores_of (fun _ _ => rfl) ?_, stores_of (fun _ _ => rfl) ?_⟩
  -- another key leaves the field as it is, whichever branch is taken
  all_goals
    intro stats k value hk
    unfold storeFigure
    simp only [hk, if_false, apply_ite MemoryStats.total, apply_ite MemoryStats.free,
      apply_ite MemoryStats.buffers, apply_ite MemoryStats.cached, apply_ite MemoryStats.swapTotal,
      apply_ite MemoryStats.swapFree, ite_self]

/-- **A field that the loop stores the values of a key in.** -/
theorem Stores.figure_eq {field : MemoryStats → UInt64} {key : String} (h : Stores field key)
    (hzero : field {} = 0) (reading : Reading) :
    field (readLines reading.uninitialised 0 {} (reading.meminfo.elim [] getlines))
      = figure reading key := by
  have hlines : readLines reading.uninitialised 0 {} (reading.meminfo.elim [] getlines)
      = (figures reading).foldl storeFigure {} := by
    rw [readLines_eq]
    simp only [Nat.zero_add]
    rfl
  rw [hlines, h.foldl, hzero]
  rfl

/-- **What a text comes to.** -/
theorem readMemoryStats_eq (reading : Reading) :
    (readMemoryStats reading).total = figure reading "MemTotal:" ∧
    (readMemoryStats reading).used = figure reading "MemTotal:"
      - (figure reading "MemFree:" + figure reading "Buffers:" + figure reading "Cached:") ∧
    (readMemoryStats reading).swapTotal = figure reading "SwapTotal:" ∧
    (readMemoryStats reading).swapUsed
      = figure reading "SwapTotal:" - figure reading "SwapFree:" := by
  obtain ⟨htotal, hfree, hbuffers, hcached, hswapTotal, hswapFree⟩ := stores_figures
  unfold readMemoryStats
  dsimp only
  rw [htotal.figure_eq rfl, hfree.figure_eq rfl, hbuffers.figure_eq rfl, hcached.figure_eq rfl,
    hswapTotal.figure_eq rfl, hswapFree.figure_eq rfl]
  refine ⟨rfl, ?_, rfl, rfl⟩
  -- three differences are one
  grind

/-! ### Consistent figures -/

/-- No figure is greater than the total that it is taken from; those of the memory are added up
modulo `2 ^ 64`. -/
def Consistent (reading : Reading) : Prop :=
  ((figure reading "MemFree:").toNat + (figure reading "Buffers:").toNat
    + (figure reading "Cached:").toNat) % 2 ^ 64 ≤ (figure reading "MemTotal:").toNat ∧
  (figure reading "SwapFree:").toNat ≤ (figure reading "SwapTotal:").toNat

/-- What is expected of a reading and of the percentages that are published for it. -/
structure Bounded (reading : Reading) : Prop where
  used_le : (readMemoryStats reading).used.toNat ≤ (readMemoryStats reading).total.toNat
  swapUsed_le :
    (readMemoryStats reading).swapUsed.toNat ≤ (readMemoryStats reading).swapTotal.toNat
  percent : 0 < (readMemoryStats reading).total → ∀ (c : MemoryCollector) (clock : ℕ → ℤ),
    (c.collect reading clock).memoryUsagePercent.getCurrentValue ∈ Set.Icc (0 : ℚ) 100
  swapPercent : 0 < (readMemoryStats reading).swapTotal →
    ∀ (c : MemoryCollector) (clock : ℕ → ℤ),
    (c.collect reading clock).swapUsagePercent.getCurrentValue ∈ Set.Icc (0 : ℚ) 100

/-- Where the total is not zero, a part of it is published as a percentage. -/
theorem updatePercent_mem {used total : UInt64} (hpos : 0 < total)
    (hle : used.toNat ≤ total.toNat) (gauge : GaugeMetric ℚ) (now : ℤ) :
    (updatePercent gauge used total now).getCurrentValue ∈ Set.Icc (0 : ℚ) 100 := by
  have htotal : (0 : ℚ) < total.toNat := by exact_mod_cast UInt64.lt_iff_toNat_lt.mp hpos
  have hused : (used.toNat : ℚ) ≤ total.toNat := by exact_mod_cast hle
  rw [updatePercent, if_pos hpos]
  show (100 * used.toNat / total.toNat : ℚ) ∈ _
  constructor
  · positivity
  · rw [div_le_iff₀ htotal]
    exact mul_le_mul_of_nonneg_left hused (by norm_num)

/-- **When the figures are consistent**: when the last ones of the lines are. -/
theorem bounded_iff (reading : Reading) : Bounded reading ↔ Consistent reading := by
  obtain ⟨htotal, hused, hswapTotal, hswapUsed⟩ := readMemoryStats_eq reading
  have hle := toNat_sub_le_iff (figure reading "MemTotal:")
    (figure reading "MemFree:" + figure reading "Buffers:" + figure reading "Cached:")
  have hswapLe := toNat_sub_le_iff (figure reading "SwapTotal:") (figure reading "SwapFree:")
  rw [← hused, ← htotal, UInt64.toNat_add, UInt64.toNat_add, Nat.mod_add_mod, htotal] at hle
  rw [← hswapUsed, ← hswapTotal] at hswapLe
  rw [hswapTotal] at hswapLe
  constructor
  · intro h
    exact ⟨hle.mp (htotal ▸ h.used_le), hswapLe.mp (hswapTotal ▸ h.swapUsed_le)⟩
  · rintro ⟨hmemory, hswap⟩
    have hused_le := htotal ▸ hle.mpr hmemory
    have hswapUsed_le := hswapTotal ▸ hswapLe.mpr hswap
    exact ⟨hused_le, hswapUsed_le, fun hpos c clock => updatePercent_mem hpos hused_le _ _,
      fun hpos c clock => updatePercent_mem hpos hswapUsed_le _ _⟩

/-- The limit of a container, with the page cache of its host. -/
def containerReading : Reading where
  meminfo := some (ascii
    "MemTotal: 1024 kB\nMemFree: 512 kB\nBuffers: 0 kB\nCached: 600 kB\nSwapTotal: 0 kB\n")

theorem not_forall_bounded : ¬ ∀ reading, Bounded reading := by
  intro h
  have hle := (h containerReading).used_le
  have hfigures : (readMemoryStats containerReading).used.toNat = 2 ^ 64 - 88 ∧
      (readMemoryStats containerReading).total.toNat = 1024 := by
    decide +kernel
  omega

end NetSentry.MemoryCollector
