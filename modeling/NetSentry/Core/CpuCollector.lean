import Mathlib.Data.Rat.Defs
import NetSentry.Lib.Checked
import NetSentry.Lib.TextStream

/-!
# `CpuCollector`

Reading the counters of `/proc/stat` (`readCpuStats`) and publishing the usage between one reading
and the next (`collect`).  Every element of a snapshot is a checked access.  A usage is the exact
value of the formula, without the rounding of `double`.
-/

namespace NetSentry

open Bytes Checked

/-- `CpuStats`. -/
structure CpuStats where
  user : UInt64 := 0
  nice : UInt64 := 0
  system : UInt64 := 0
  idle : UInt64 := 0
  iowait : UInt64 := 0
  irq : UInt64 := 0
  softirq : UInt64 := 0
  steal : UInt64 := 0
  guest : UInt64 := 0
  guestNice : UInt64 := 0
deriving DecidableEq

namespace CpuStats

/-- `CpuStats::total`. -/
def total (stats : CpuStats) : UInt64 :=
  stats.user + stats.nice + stats.system + stats.idle + stats.iowait + stats.irq + stats.softirq
    + stats.steal + stats.guest + stats.guestNice

/-- `CpuStats::idle_total`. -/
def idleTotal (stats : CpuStats) : UInt64 := stats.idle + stats.iowait

end CpuStats

namespace CpuCollector

/-- The counters of a line. -/
def parseCpuLine (line : Bytes) : CpuStats :=
  let iss : IStream := { rest := line }
  let (_cpuLabel, iss) := iss.word
  let (user, iss) := iss.uint64 0
  let (nice, iss) := iss.uint64 0
  let (system, iss) := iss.uint64 0
  let (idle, iss) := iss.uint64 0
  let (iowait, iss) := iss.uint64 0
  let (irq, iss) := iss.uint64 0
  let (softirq, iss) := iss.uint64 0
  let (steal, iss) := iss.uint64 0
  let (guest, iss) := iss.uint64 0
  let (guestNice, _) := iss.uint64 0
  { user, nice, system, idle, iowait, irq, softirq, steal, guest, guestNice }

/-- The loop of `readCpuStats`, which ends at the first line that does not begin with `cpu`. -/
def readCpuLines : List Bytes → List CpuStats
  | [] => []
  | line :: lines =>
    if line.take 3 ≠ ascii "cpu" then [] else parseCpuLine line :: readCpuLines lines

/-- `CpuCollector::readCpuStats`, given the text of `/proc/stat` where it can be read. -/
def readCpuStats (procStat : Option Bytes) : List CpuStats :=
  let stats := readCpuLines (procStat.elim [] getlines)
  if stats = [] then [{}] else stats

/-- `CpuCollector::calculateCpuUsage`. -/
def calculateCpuUsage (prev curr : CpuStats) : ℚ :=
  let prevTotal := prev.total
  let currTotal := curr.total
  let totalDelta := currTotal - prevTotal
  if totalDelta = 0 then 0
  else
    let idleDelta := curr.idleTotal - prev.idleTotal
    100 * (1 - (idleDelta.toNat : ℚ) / totalDelta.toNat)

/-- The metrics of the collector: `cpu.usage` and `cpu.core.i.usage`. -/
inductive CpuMetric
  | usage
  | coreUsage (i : ℕ)
deriving DecidableEq

end CpuCollector

/-- `CpuCollector`: the last snapshot and the number of core metrics. -/
structure CpuCollector where
  coreUsageSize : ℕ
  prevStats : List CpuStats
deriving DecidableEq

namespace CpuCollector

/-- The constructor, given its reading. -/
def create (procStat : Option Bytes) : CpuCollector where
  prevStats := readCpuStats procStat
  coreUsageSize := (readCpuStats procStat).length - 1

/-- The loop of `collect` over the core metrics. -/
def collectCores (prevStats currStats : List CpuStats) :
    List ℕ → Checked (List (CpuMetric × ℚ))
  | [] => pure []
  | i :: is => do
    let prev ← readAt prevStats (i + 1)
    let curr ← readAt currStats (i + 1)
    let updates ← collectCores prevStats currStats is
    pure ((.coreUsage i, calculateCpuUsage prev curr) :: updates)

/-- `CpuCollector::collect`, given its reading: the collector afterwards and the updates it has made
to its metrics. -/
def collect (c : CpuCollector) (procStat : Option Bytes) :
    Checked (CpuCollector × List (CpuMetric × ℚ)) :=
  let currStats := readCpuStats procStat
  if currStats.length ≠ c.prevStats.length then pure ({ c with prevStats := currStats }, [])
  else do
    let prev ← readAt c.prevStats 0
    let curr ← readAt currStats 0
    let totalUsage := calculateCpuUsage prev curr
    let updates ← collectCores c.prevStats currStats (List.range c.coreUsageSize)
    pure ({ c with prevStats := currStats }, (.usage, totalUsage) :: updates)

/-- The collector after collecting once for each reading. -/
def collectAll (c : CpuCollector) : List (Option Bytes) → Checked CpuCollector
  | [] => pure c
  | procStat :: readings => do
    let (c, _) ← c.collect procStat
    collectAll c readings

end CpuCollector

end NetSentry
