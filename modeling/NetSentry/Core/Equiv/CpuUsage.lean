import Mathlib.Tactic.Linarith
import Mathlib.Tactic.Positivity
import Mathlib.Tactic.Ring
import NetSentry.Core.CpuCollector
import NetSentry.Lib.Wrapping

/-!
# When the usage is a percentage

`calculateCpuUsage` divides how much the idle time has grown by how much the total has, both as
counters of 64 bits that wrap around.  A difference that is negative is taken for one of almost
`2 ^ 64`, and a time that the kernel corrects downwards gives one.

* `calculateCpuUsage_mem_iff`: the usage is a percentage exactly when the idle time and the busy
  time, each modulo `2 ^ 64`, have together grown by at most `2 ^ 64`.
* `not_forall_calculateCpuUsage_mem`: a wait for input or output that is corrected by one tick.
-/

namespace NetSentry.CpuCollector

open Wrapping

/-! ### Times -/

/-- The time that the counters say was spent idle. -/
def idleTime (stats : CpuStats) : ℤ := stats.idle.toNat + stats.iowait.toNat

/-- The time that the other counters add up to. -/
def busyTime (stats : CpuStats) : ℤ :=
  stats.user.toNat + stats.nice.toNat + stats.system.toNat + stats.irq.toNat + stats.softirq.toNat
    + stats.steal.toNat + stats.guest.toNat + stats.guestNice.toNat

/-- By how much the idle time has grown. -/
def idleChange (prev curr : CpuStats) : ℤ := idleTime curr - idleTime prev

/-- By how much the busy time has grown. -/
def busyChange (prev curr : CpuStats) : ℤ := busyTime curr - busyTime prev

theorem idleTotal_eq (stats : CpuStats) : stats.idleTotal = UInt64.ofInt (idleTime stats) := by
  unfold CpuStats.idleTotal idleTime
  rw [UInt64.ofInt_add, ofInt_toNat, ofInt_toNat]

theorem total_eq (stats : CpuStats) :
    stats.total = UInt64.ofInt (idleTime stats + busyTime stats) := by
  have hsum : idleTime stats + busyTime stats
      = stats.user.toNat + stats.nice.toNat + stats.system.toNat + stats.idle.toNat
        + stats.iowait.toNat + stats.irq.toNat + stats.softirq.toNat + stats.steal.toNat
        + stats.guest.toNat + stats.guestNice.toNat := by
    unfold idleTime busyTime
    ring
  rw [hsum]
  simp only [UInt64.ofInt_add, ofInt_toNat]
  rfl

/-- **The idle difference** that the code takes. -/
theorem toNat_idleDelta (prev curr : CpuStats) :
    ((curr.idleTotal - prev.idleTotal).toNat : ℤ) = idleChange prev curr % 2 ^ 64 := by
  rw [idleTotal_eq, idleTotal_eq, ← ofInt_sub, toNat_ofInt]
  rfl

/-- **The total difference** that the code takes. -/
theorem toNat_totalDelta (prev curr : CpuStats) :
    ((curr.total - prev.total).toNat : ℤ)
      = (idleChange prev curr + busyChange prev curr) % 2 ^ 64 := by
  have hchange : idleTime curr + busyTime curr - (idleTime prev + busyTime prev)
      = idleChange prev curr + busyChange prev curr := by
    unfold idleChange busyChange
    ring
  rw [total_eq, total_eq, ← ofInt_sub, toNat_ofInt, hchange]

/-! ### The percentage -/

/-- A share of a positive total is at most all of it when it is no greater. -/
theorem percentage_mem_iff {idle total : ℕ} (htotal : 0 < total) :
    (0 ≤ 100 * (1 - (idle : ℚ) / total) ∧ 100 * (1 - (idle : ℚ) / total) ≤ 100)
      ↔ idle ≤ total := by
  have hpos : (0 : ℚ) < total := by exact_mod_cast htotal
  have hshare : (idle : ℚ) / total ≤ 1 ↔ idle ≤ total := by
    rw [div_le_one hpos]
    exact Nat.cast_le
  have hnonneg : (0 : ℚ) ≤ (idle : ℚ) / total := by positivity
  rw [← hshare]
  constructor
  · rintro ⟨hlow, _⟩
    linarith
  · intro hle
    exact ⟨by linarith, by linarith⟩

/-- **When the usage is a percentage**: when the idle time and the busy time, each modulo `2 ^ 64`,
have together grown by at most `2 ^ 64`. -/
theorem calculateCpuUsage_mem_iff (prev curr : CpuStats) :
    (0 ≤ calculateCpuUsage prev curr ∧ calculateCpuUsage prev curr ≤ 100)
      ↔ idleChange prev curr % 2 ^ 64 + busyChange prev curr % 2 ^ 64 ≤ 2 ^ 64 := by
  have hidle := toNat_idleDelta prev curr
  have htotal := toNat_totalDelta prev curr
  have hmod : (0 : ℤ) < 2 ^ 64 := by decide
  have hzero := emod_add_eq_zero_iff (idleChange prev curr) (busyChange prev curr) hmod
  have hwrap := emod_le_emod_add_iff (idleChange prev curr) (busyChange prev curr) hmod
  have hidleRange := emod_range (idleChange prev curr) hmod
  have hbusyRange := emod_range (busyChange prev curr) hmod
  unfold calculateCpuUsage
  dsimp only
  split_ifs with hsame
  · -- the total is the same, so that the times have grown by nothing or by `2 ^ 64`
    rw [hsame] at htotal
    have hsum := hzero.mp htotal.symm
    refine iff_of_true ⟨le_refl 0, by norm_num⟩ ?_
    omega
  · have hpos : 0 < (curr.total - prev.total).toNat := by
      apply Nat.pos_of_ne_zero
      intro hnull
      exact hsame (UInt64.toNat_inj.mp hnull)
    rw [percentage_mem_iff hpos]
    omega

/-! ### A counter that goes down -/

/-- A reading of the counters. -/
def firstReading : CpuStats := { user := 100, idle := 900, iowait := 5 }

/-- The next one: the processor has been busy, and the kernel has taken one tick off the time spent
waiting. -/
def correctedReading : CpuStats := { user := 104, idle := 900, iowait := 4 }

theorem not_forall_calculateCpuUsage_mem :
    ¬ ∀ prev curr : CpuStats,
      0 ≤ calculateCpuUsage prev curr ∧ calculateCpuUsage prev curr ≤ 100 := by
  intro h
  have hnonneg := (h firstReading correctedReading).1
  have husage : calculateCpuUsage firstReading correctedReading
      = 100 * (1 - ((2 ^ 64 - 1 : ℕ) : ℚ) / (3 : ℕ)) := rfl
  rw [husage] at hnonneg
  norm_num at hnonneg

end NetSentry.CpuCollector
