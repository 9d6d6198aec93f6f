import NetSentry.Core.SystemMetrics
import NetSentry.Lib.TextStream

/-!
# `MemoryCollector`

Reading the figures of `/proc/meminfo` (`readMemoryStats`) and publishing them in seven gauges
(`collect`).  The figures are counters of 64 bits; what is published is exact, without the rounding
of `double`.
-/

namespace NetSentry

open Bytes

/-- `MemoryStats`, in kilobytes. -/
structure MemoryStats where
  total : UInt64 := 0
  available : UInt64 := 0
  used : UInt64 := 0
  free : UInt64 := 0
  buffers : UInt64 := 0
  cached : UInt64 := 0
  swapTotal : UInt64 := 0
  swapUsed : UInt64 := 0
  swapFree : UInt64 := 0
deriving DecidableEq

/-- `MemoryCollector`: the seven gauges. -/
structure MemoryCollector where
  memoryTotal : GaugeMetric ℚ
  memoryUsed : GaugeMetric ℚ
  memoryFree : GaugeMetric ℚ
  memoryUsagePercent : GaugeMetric ℚ
  swapTotal : GaugeMetric ℚ
  swapUsed : GaugeMetric ℚ
  swapUsagePercent : GaugeMetric ℚ

namespace MemoryCollector

/-- The constructor, with the time at which it makes the gauges. -/
def create (now : ℤ) : MemoryCollector where
  memoryTotal := .create (ascii "memory.total") now
  memoryUsed := .create (ascii "memory.used") now
  memoryFree := .create (ascii "memory.free") now
  memoryUsagePercent := .create (ascii "memory.usage_percent") now
  swapTotal := .create (ascii "memory.swap_total") now
  swapUsed := .create (ascii "memory.swap_used") now
  swapUsagePercent := .create (ascii "memory.swap_usage_percent") now

/-! ### Reading -/

/-- What `readMemoryStats` finds: the text of `/proc/meminfo` where it can be read, and what the
variable `value`, which is not initialised, happens to hold in each pass of the loop. -/
structure Reading where
  meminfo : Option Bytes
  uninitialised : ℕ → UInt64 := fun _ => 0

/-- The key and the value of a line. -/
def parseMemoryLine (line : Bytes) (uninitialised : UInt64) : Bytes × UInt64 :=
  let iss : IStream := { rest := line }
  let (key, iss) := iss.word
  let (value, iss) := iss.uint64 uninitialised
  let (_unit, _) := iss.word
  (key, value)

/-- The branch of the loop that is taken for a key. -/
def storeFigure (stats : MemoryStats) : Bytes × UInt64 → MemoryStats
  | (key, value) =>
    if key = ascii "MemTotal:" then { stats with total := value }
    else if key = ascii "MemFree:" then { stats with free := value }
    else if key = ascii "MemAvailable:" then { stats with available := value }
    else if key = ascii "Buffers:" then { stats with buffers := value }
    else if key = ascii "Cached:" then { stats with cached := value }
    else if key = ascii "SwapTotal:" then { stats with swapTotal := value }
    else if key = ascii "SwapFree:" then { stats with swapFree := value }
    else stats

/-- The loop over the lines, from the pass number `pass` on. -/
def readLines (uninitialised : ℕ → UInt64) (pass : ℕ) (stats : MemoryStats) :
    List Bytes → MemoryStats
  | [] => stats
  | line :: lines =>
    readLines uninitialised (pass + 1)
      (storeFigure stats (parseMemoryLine line (uninitialised pass))) lines

/-- `MemoryCollector::readMemoryStats`. -/
def readMemoryStats (reading : Reading) : MemoryStats :=
  let lines := reading.meminfo.elim [] getlines
  let stats := readLines reading.uninitialised 0 {} lines
  let stats := { stats with used := stats.total - stats.free - stats.buffers - stats.cached }
  { stats with swapUsed := stats.swapTotal - stats.swapFree }

/-! ### Publishing -/

/-- Kilobytes in megabytes. -/
def megabytes (kilobytes : UInt64) : ℚ := kilobytes.toNat / 1024

/-- The update of a gauge for a percentage, which is left out where the total is zero. -/
def updatePercent (gauge : GaugeMetric ℚ) (used total : UInt64) (now : ℤ) : GaugeMetric ℚ :=
  if 0 < total then gauge.update (100 * used.toNat / total.toNat) now else gauge

/-- `MemoryCollector::collect`, given its reading and the times at which it updates the gauges. -/
def collect (c : MemoryCollector) (reading : Reading) (clock : ℕ → ℤ) : MemoryCollector :=
  let stats := readMemoryStats reading
  { memoryTotal := c.memoryTotal.update (megabytes stats.total) (clock 0)
    memoryUsed := c.memoryUsed.update (megabytes stats.used) (clock 1)
    memoryFree := c.memoryFree.update (megabytes stats.free) (clock 2)
    memoryUsagePercent := updatePercent c.memoryUsagePercent stats.used stats.total (clock 3)
    swapTotal := c.swapTotal.update (megabytes stats.swapTotal) (clock 4)
    swapUsed := c.swapUsed.update (megabytes stats.swapUsed) (clock 5)
    swapUsagePercent :=
      updatePercent c.swapUsagePercent stats.swapUsed stats.swapTotal (clock 6) }

/-- The collector after collecting once for each reading. -/
def collectAll (c : MemoryCollector) (collections : List (Reading × (ℕ → ℤ))) : MemoryCollector :=
  collections.foldl (fun c collection => c.collect collection.1 collection.2) c

end MemoryCollector

end NetSentry
