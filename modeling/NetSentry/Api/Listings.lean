import NetSentry.Api.RestApi
import NetSentry.Network.TopConnections

/-!
# The listing endpoints of `RestApi`

The handlers that list the metrics, the connections and the hosts, and the one that counts the
connections.  The orders in which loops visit the maps of the analyzer and the sorts of the library
are parameters.
-/

namespace NetSentry

open Bytes KeyedFold PacketAnalyzer

namespace RestApi

/-- The headers of every response. -/
def jsonHeaders : Finmap fun _ : Bytes => Bytes :=
  (∅ : Finmap fun _ : Bytes => Bytes).insert contentType (ascii "application/json")

/-- The body of a loop that writes one object after the other: what has been written, and whether
the object is the first one. -/
def appendObject (written : Bytes × Bool) (object : Bytes) : Bytes × Bool :=
  let json := if !written.2 then written.1 ++ ascii ",\n" else written.1
  (json ++ object, false)

/-! ### Metrics -/

/-- What a collector has: the names that `getMetricNames` returns, each with the value of the metric
that `getMetric` then returns, if it returns one. -/
abbrev MetricList := List (Bytes × Option FiniteDouble)

/-- What is written for a metric. -/
def metricObject (name : Bytes) (value : FiniteDouble) : Bytes :=
  ascii "    \x7b\n" ++
  (ascii "      \"name\": \"" ++ name ++ ascii "\",\n") ++
  (ascii "      \"value\": " ++ toStringSigned value ++ ascii "\n") ++
  ascii "    \x7d"

/-- The body of the loops of `handleGetMetrics`. -/
def appendMetric (written : Bytes × Bool) (metric : Bytes × Option FiniteDouble) : Bytes × Bool :=
  match metric.2 with
  | some value => appendObject written (metricObject metric.1 value)
  | none => written

/-- `RestApi::handleGetMetrics`. -/
def handleGetMetrics (collectors : List MetricList) (_request : HttpRequest) : HttpResponse :=
  let written := collectors.foldl (fun written collector => collector.foldl appendMetric written)
    (ascii "\x7b\n  \"metrics\": [\n", true)
  { headers := jsonHeaders, body := written.1 ++ ascii "\n  ]\n\x7d" }

/-! ### Connections -/

/-- The response where there is no analyzer. -/
def analyzerUnavailable : HttpResponse where
  statusCode := 503
  headers := jsonHeaders
  body := ascii "\x7b\n  \"error\": \"Network packet analyzer not available\"\n\x7d"

/-- The `limit` of a request. -/
def limitOf (request : HttpRequest) : UInt64 :=
  match request.queryParams.lookup (ascii "limit") with
  | some value => (stoul value).getD 10
  | none => 10

/-- What is written for a connection. -/
def connectionObject (entry : ConnectionKey × ConnectionStats) : Bytes :=
  let key := entry.1
  let stats := entry.2
  ascii "    \x7b\n" ++
  (ascii "      \"source\": \"" ++ key.sourceIp ++ ascii ":" ++ decimal key.sourcePort.toNat ++
    ascii "\",\n") ++
  (ascii "      \"destination\": \"" ++ key.destIp ++ ascii ":" ++ decimal key.destPort.toNat ++
    ascii "\",\n") ++
  (ascii "      \"protocol\": " ++ decimal key.protocol.toNat ++ ascii ",\n") ++
  (ascii "      \"bytes_sent\": " ++ decimal stats.bytesSent.toNat ++ ascii ",\n") ++
  (ascii "      \"bytes_received\": " ++ decimal stats.bytesReceived.toNat ++ ascii ",\n") ++
  (ascii "      \"packets_sent\": " ++ decimal stats.packetsSent.toNat ++ ascii ",\n") ++
  (ascii "      \"packets_received\": " ++ decimal stats.packetsReceived.toNat ++ ascii "\n") ++
  ascii "    \x7d"

section Connections

variable (sorter : Sorter compareConnectionsByTraffic)
  (visit : ∀ a : PacketAnalyzer, VisitOrder a.connections)

/-- The connections that `handleGetConnections` writes. -/
def listedConnections (a : PacketAnalyzer) (request : HttpRequest) :
    List (ConnectionKey × ConnectionStats) :=
  a.getTopConnections sorter (visit a) (limitOf request)

/-- `RestApi::handleGetConnections`. -/
def handleGetConnections (packetAnalyzer : Option PacketAnalyzer) (request : HttpRequest) :
    HttpResponse :=
  match packetAnalyzer with
  | none => analyzerUnavailable
  | some a =>
    let written := (listedConnections sorter visit a request).foldl
      (fun written entry => appendObject written (connectionObject entry))
      (ascii "\x7b\n  \"connections\": [\n", true)
    { headers := jsonHeaders, body := written.1 ++ ascii "\n  ]\n\x7d" }

/-- The body of `handleGetNetworkStats`, given the number it prints. -/
def networkStatsBody (connections : ℕ) : Bytes :=
  ascii "\x7b\n" ++
  ascii "  \"status\": \"Active\",\n" ++
  (ascii "  \"connections\": " ++ decimal connections ++ ascii "\n") ++
  ascii "\x7d"

/-- `RestApi::handleGetNetworkStats`. -/
def handleGetNetworkStats (packetAnalyzer : Option PacketAnalyzer) (_request : HttpRequest) :
    HttpResponse :=
  match packetAnalyzer with
  | none => analyzerUnavailable
  | some a =>
    { headers := jsonHeaders
      body := networkStatsBody (a.getTopConnections sorter (visit a) 1000).length }

end Connections

/-! ### Hosts -/

/-- The comparison of hosts by their traffic. -/
def compareHosts (a b : Bytes × UInt64) : Bool := a.2 > b.2

/-- What is written for a host. -/
def hostObject (host : Bytes × UInt64) : Bytes :=
  ascii "    \x7b\n" ++
  (ascii "      \"ip\": \"" ++ host.1 ++ ascii "\",\n") ++
  (ascii "      \"bytes\": " ++ decimal host.2.toNat ++ ascii "\n") ++
  ascii "    \x7d"

section Hosts

variable (sorter : Sorter compareHosts)
  (visit : ∀ a : PacketAnalyzer, VisitOrder a.hostTrafficStats)

/-- `sorted_hosts`. -/
def sortedHosts (a : PacketAnalyzer) : List (Bytes × UInt64) :=
  sorter.sort (entries a.hostTrafficStats (visit a))

/-- The hosts that `handleGetTopHosts` writes: those with an index below both bounds of its loop. -/
def listedHosts (a : PacketAnalyzer) (request : HttpRequest) : List (Bytes × UInt64) :=
  let hosts := sortedHosts sorter visit a
  hosts.take (min (limitOf request).toNat hosts.length)

/-- `RestApi::handleGetTopHosts`. -/
def handleGetTopHosts (packetAnalyzer : Option PacketAnalyzer) (request : HttpRequest) :
    HttpResponse :=
  match packetAnalyzer with
  | none => analyzerUnavailable
  | some a =>
    let written := (listedHosts sorter visit a request).foldl
      (fun written host => appendObject written (hostObject host))
      (ascii "\x7b\n  \"hosts\": [\n", true)
    { headers := jsonHeaders, body := written.1 ++ ascii "\n  ]\n\x7d" }

end Hosts

end RestApi

end NetSentry
