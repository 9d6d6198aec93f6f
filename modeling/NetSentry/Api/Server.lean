import NetSentry.Api.Listings
import NetSentry.Core.MetricRegistry

/-!
# The server of `RestApi`

The handlers that `RestApi` registers, on the collectors and the analyzer that it refers to.  What
`getMetric` and `getCurrentValue` return while a request is answered, what the system says about
itself, the orders in which maps are visited and the sorts are parameters.
-/

namespace NetSentry

open Bytes KeyedFold PacketAnalyzer

/-- The number that a `double` stands for. -/
def FiniteDouble.toRat (value : FiniteDouble) : ℚ :=
  if value.negative then -value.magnitude else value.magnitude

namespace RestApi

/-! ### The system -/

/-- What the system says about itself. -/
structure SystemFacts where
  /-- The bytes that `gethostname` writes, where it succeeds. -/
  hostname : Option Bytes
  hardwareConcurrency : UInt32
  /-- The number at the beginning of `/proc/uptime`, and zero where there is none. -/
  uptime : ℚ

/-- `getSystemHostname`: a text of at most 1023 bytes that ends at the first null character. -/
def getSystemHostname (facts : SystemFacts) : Bytes :=
  match facts.hostname with
  | some written => (written.take 1023).takeWhile (· ≠ 0)
  | none => ascii "unknown"

/-- `getSystemPlatform`, on Linux. -/
def getSystemPlatform : Bytes := ascii "Linux"

/-- `getSystemUptime`. -/
def getSystemUptime (facts : SystemFacts) : ℕ := ⌊facts.uptime⌋₊

/-- `RestApi::handleGetSystemInfo`. -/
def handleGetSystemInfo (facts : SystemFacts) (_request : HttpRequest) : HttpResponse where
  headers := jsonHeaders
  body :=
    ascii "\x7b\n" ++
    (ascii "  \"hostname\": \"" ++ getSystemHostname facts ++ ascii "\",\n") ++
    (ascii "  \"platform\": \"" ++ getSystemPlatform ++ ascii "\",\n") ++
    (ascii "  \"num_cpus\": " ++ decimal facts.hardwareConcurrency.toNat ++ ascii ",\n") ++
    (ascii "  \"uptime\": " ++ decimal (getSystemUptime facts) ++ ascii "\n") ++
    ascii "\x7d"

/-! ### The collectors -/

variable {μ : Type*}

/-- What `getMetricNames` of a collector returns, each with what `getMetric` and `getCurrentValue`
then return. -/
def metricList (r : MetricRegistry μ) (value : μ → FiniteDouble) : MetricList :=
  r.getMetricNames.map fun name => (name, (r.getMetric name).map value)

/-- The current values of the metrics of a collector. -/
def metricValues (r : MetricRegistry μ) (value : μ → FiniteDouble) : Collector :=
  r.metrics.entries.foldl (fun values entry => values.insert entry.1 (value entry.2).toRat) ∅

/-! ### The server -/

/-- What the handlers find. -/
structure Resources (μ : Type*) where
  collectors : List (MetricRegistry μ)
  value : μ → FiniteDouble
  packetAnalyzer : Option PacketAnalyzer
  facts : SystemFacts
  connectionSorter : Sorter compareConnectionsByTraffic
  hostSorter : Sorter compareHosts
  visitConnections : ∀ a : PacketAnalyzer, VisitOrder a.connections
  visitHosts : ∀ a : PacketAnalyzer, VisitOrder a.hostTrafficStats

/-- The handlers of a `RestApi`. -/
def handlers (r : Resources μ) : Handlers where
  handleGetMetrics := handleGetMetrics (r.collectors.map fun c => metricList c r.value)
  handleGetMetric := handleGetMetric (r.collectors.map fun c => metricValues c r.value)
  handleGetNetworkStats :=
    handleGetNetworkStats r.connectionSorter r.visitConnections r.packetAnalyzer
  handleGetConnections :=
    handleGetConnections r.connectionSorter r.visitConnections r.packetAnalyzer
  handleGetTopHosts := handleGetTopHosts r.hostSorter r.visitHosts r.packetAnalyzer
  handleGetSystemInfo := handleGetSystemInfo r.facts

/-- What the server answers to a request. -/
def respond (r : Resources μ) (req : IncomingRequest) : Checked OutgoingResponse :=
  processRequest (setupRoutes (handlers r)) req

end RestApi

end NetSentry
