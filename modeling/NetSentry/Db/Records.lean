import Mathlib.Data.Rat.Defs
import NetSentry.Lib.Numeral

/-!
# Records of alerts and of metrics

The records of `db/database.hpp` that `main` inserts for the alerts that fire and for the metrics
that it stores.  A `double` is its exact value.
-/

namespace NetSentry

/-- `AlertRecord`. -/
structure AlertRecord where
  name : Bytes
  description : Bytes
  severity : ℤ
  timestamp : Int64
  acknowledged : Bool
deriving DecidableEq

/-- `MetricDataPoint`. -/
structure MetricDataPoint where
  metricName : Bytes
  value : ℚ
  timestamp : Int64
deriving DecidableEq

end NetSentry
