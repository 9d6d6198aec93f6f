import NetSentry.Lib.Numeral
import NetSentry.Lib.OrderedMap

/-!
# `Metric`

Gauges and counters, with the values of the calls made on them by the reading of `system_clock` that
each call took.  A value is of any type with a zero and an addition, as `double` is one, and a
`TimePoint` is its number of ticks.
-/

namespace NetSentry

inductive MetricType
  | gauge
  | counter
  | histogram
deriving DecidableEq

/-- A metric, with the fields that `GaugeMetric` and `CounterMetric` both add. -/
structure Metric (ν : Type*) where
  name : Bytes
  type : MetricType
  lastUpdated : ℤ
  currentValue : ν
  historicalValues : OrderedMap ℤ ν

namespace Metric

variable {ν : Type*}

def create [Zero ν] (name : Bytes) (type : MetricType) (now : ℤ) : Metric ν where
  name := name
  type := type
  lastUpdated := now
  currentValue := 0
  historicalValues := .empty

/-- The bound of the history in `update` and `increment`. -/
def historyLimit : ℕ := 1000

/-- `update` and `increment` of either class, from the value that they store on. -/
def record (m : Metric ν) (value : ν) (now : ℤ) : Metric ν :=
  { m with
    currentValue := value
    lastUpdated := now
    historicalValues := (m.historicalValues.assign now value).shrink historyLimit }

/-- `getValueAt` of either class. -/
def valueAt (m : Metric ν) (time : ℤ) : Option ν :=
  match m.historicalValues.lowerBound time with
  | none => m.historicalValues.last.map Prod.snd
  | some entry => some entry.2

end Metric

/-! ### `GaugeMetric` -/

abbrev GaugeMetric := Metric

namespace GaugeMetric

variable {ν : Type*}

def create [Zero ν] (name : Bytes) (now : ℤ) : GaugeMetric ν := Metric.create name .gauge now

def update (m : GaugeMetric ν) (value : ν) (now : ℤ) : GaugeMetric ν := Metric.record m value now

def getCurrentValue (m : GaugeMetric ν) : ν := m.currentValue

def getValueAt (m : GaugeMetric ν) (time : ℤ) : Option ν := Metric.valueAt m time

end GaugeMetric

/-! ### `CounterMetric` -/

abbrev CounterMetric := Metric

namespace CounterMetric

variable {ν : Type*}

def create [Zero ν] (name : Bytes) (now : ℤ) : CounterMetric ν := Metric.create name .counter now

def update (m : CounterMetric ν) (value : ν) (now : ℤ) : CounterMetric ν :=
  Metric.record m value now

def increment [Add ν] (m : CounterMetric ν) (amount : ν) (now : ℤ) : CounterMetric ν :=
  Metric.record m (m.currentValue + amount) now

def getCurrentValue (m : CounterMetric ν) : ν := m.currentValue

def getValueAt (m : CounterMetric ν) (time : ℤ) : Option ν := Metric.valueAt m time

/-- What is called on a counter. -/
inductive Call (ν : Type*)
  | update (value : ν)
  | increment (amount : ν)

/-- A call, and the reading of the clock that it takes. -/
def call [Add ν] (m : CounterMetric ν) (now : ℤ) : Call ν → CounterMetric ν
  | .update value => m.update value now
  | .increment amount => m.increment amount now

end CounterMetric

end NetSentry
