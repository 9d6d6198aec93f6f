import NetSentry.Main.Options

/-!
# What `main` reads from the settings

After its option loop `main` reads each setting once, with a default of its own where it is missing
or has another type: here the thresholds of its alerts and the interval of its cleanup.
-/

namespace NetSentry

open Bytes

namespace MainSettings

def cpuWarning (config : ConfigManager) : UInt32 :=
  config.getOrDefault .uint32 (ascii "cpu_threshold_warning") 75

def cpuCritical (config : ConfigManager) : UInt32 :=
  config.getOrDefault .uint32 (ascii "cpu_threshold_critical") 90

def memWarning (config : ConfigManager) : UInt32 :=
  config.getOrDefault .uint32 (ascii "memory_threshold_warning") 70

def memCritical (config : ConfigManager) : UInt32 :=
  config.getOrDefault .uint32 (ascii "memory_threshold_critical") 85

/-- The setting is converted to `int64_t`. -/
def cleanupInterval (config : ConfigManager) : Int64 :=
  (config.getOrDefault .uint32 (ascii "cleanup_interval_seconds") 3600).toUInt64.toInt64

end MainSettings

end NetSentry
