import NetSentry.Core.ConfigManager

/-!
# The database cleanup of `main`

The task that `main` gives to the thread pool once in a while: it reads from the settings for how
many days to keep what the database stores, and deletes what is older.
-/

namespace NetSentry

open Bytes

/-- What the cleanup deletes from: `pruneMetricsBefore`, `pruneConnectionsBefore` and
`pruneAlertsBefore` each have a table. -/
inductive Table
  | metrics
  | connections
  | alerts
deriving DecidableEq

namespace Table

/-- The setting for a table. -/
def maxAgeKey : Table → Bytes
  | .metrics => ascii "metrics_max_age_days"
  | .connections => ascii "connections_max_age_days"
  | .alerts => ascii "alerts_max_age_days"

/-- The days for which the records of a table are kept if there is no such setting. -/
def maxAgeDefault : Table → UInt32
  | .metrics => 30
  | .connections => 7
  | .alerts => 90

end Table

namespace Cleanup

/-- `config.getOrDefault<uint32_t>(key, default) * 86400`: a product of two numbers of 32 bits,
which is then converted to `int64_t`. -/
def maxAge (config : ConfigManager) (table : Table) : Int64 :=
  (config.getOrDefault .uint32 table.maxAgeKey table.maxAgeDefault * 86400).toUInt64.toInt64

/-- The cleanup task at a time: the tables that it prunes, each with the time before which the
records are deleted. -/
def databaseCleanup (config : ConfigManager) (now : Int64) : List (Table × Int64) :=
  let metricsMaxAge := maxAge config .metrics
  let connectionsMaxAge := maxAge config .connections
  let alertsMaxAge := maxAge config .alerts
  [(.metrics, now - metricsMaxAge), (.connections, now - connectionsMaxAge),
    (.alerts, now - alertsMaxAge)]

end Cleanup

end NetSentry
