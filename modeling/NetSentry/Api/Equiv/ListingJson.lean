import NetSentry.Api.Equiv.Limits
import NetSentry.Lib.Json
import NetSentry.Network.Equiv.Addresses
import NetSentry.Network.Equiv.TopConnections

/-!
# The JSON of the listing endpoints

The bodies that `handleGetMetrics`, `handleGetConnections` and `handleGetTopHosts` write by hand are
JSON (`listings_json`), with an object for each item that is listed, in order.

* `foldl_appendObject`: a loop writes its objects separated by commas, none before the first one.
* `reads_listedObject`, `read_listing`: an object of a list, and the list, the only member of an
  object.
* `reads_toStringSigned`: the number that is printed for a `double`.
* `reads_metricObject`, `reads_connectionObject`, `reads_hostObject`: what an object carries.
-/

namespace NetSentry.RestApi

open Bytes KeyedFold PacketAnalyzer TopK Json

/-! ### The loops -/

/-- Every object but the first one is preceded by a comma and the end of the line. -/
theorem foldl_appendObject_cons (objects : List Bytes) (written object : Bytes) :
    (objects.foldl appendObject (written ++ object, false)).1
      = written ++ (ascii ",\n").intercalate (object :: objects) := by
  induction objects generalizing written object with
  | nil => rw [List.foldl_nil, List.intercalate_singleton]
  | cons next objects ih =>
    -- the flag has been cleared by the first object
    have hstep : appendObject (written ++ object, false) next
        = (written ++ object ++ ascii ",\n" ++ next, false) := rfl
    rw [List.foldl_cons, hstep, ih, List.intercalate_cons_cons]
    simp only [List.append_assoc]

theorem foldl_appendObject (header : Bytes) (objects : List Bytes) :
    (objects.foldl appendObject (header, true)).1
      = header ++ (ascii ",\n").intercalate objects := by
  cases objects with
  | nil => rw [List.foldl_nil, List.intercalate_nil, List.append_nil]
  | cons object objects => exact foldl_appendObject_cons objects header object

/-! ### The layout -/

/-- The text of an object of a list. -/
def listedObject (ms : List Member) : Bytes :=
  ascii "    " ++ enclosed 123 (ascii "\n      ") (ascii "\n      ") (ascii "\n    ") 125
    (ms.map Member.layout)

theorem reads_listedObject {ms : List Member} (h : ∀ m ∈ ms, m.Reads) :
    ReadsAs (listedObject ms) (.object (ms.map Member.entry)) :=
  (reads_object (by decide) (by decide) (by decide) h).append_left (by decide)

/-- **A loop that writes one object after the other** writes a list, the only member of an
object. -/
theorem read_listing {α : Type*} {name header : Bytes} (hname : PlainText name)
    (hheader : header = ascii "\x7b\n  \"" ++ name ++ ascii "\": [\n") {items : List α}
    {text : α → Bytes} {json : α → Json} (h : ∀ i ∈ items, ReadsAs (text i) (json i)) :
    read (((items.map text).foldl appendObject (header, true)).1 ++ ascii "\n  ]\n\x7d")
      = some (.object [(name, .array (items.map json))]) := by
  have hitems : ∀ o ∈ items.map fun i => (text i, json i), ReadsAs o.1 o.2 :=
    List.forall_mem_map.mpr h
  have harray := reads_array (by decide : White (ascii "\n")) (by decide : White (ascii "\n"))
    (by decide : White (ascii "\n  ")) hitems
  have hmember : Member.Reads ⟨name, _, _⟩ := ⟨hname, harray⟩
  have hobject := reads_object (by decide : White (ascii "\n  ")) (by decide : White [])
    (by decide : White (ascii "\n")) (List.forall_mem_singleton.mpr hmember)
  have hread := read_append hobject (by decide : White [])
  rw [foldl_appendObject, hheader]
  simpa [enclosed, Member.layout, Member.entry, ascii, Function.comp_def] using hread

/-! ### The members of the objects -/

/-- The text of a string. -/
def quoted (s : Bytes) : Bytes := 34 :: s ++ [34]

theorem reads_stringMember {name s : Bytes} (hname : PlainText name) (hs : PlainText s) :
    Member.Reads ⟨name, quoted s, .string s⟩ :=
  ⟨hname, reads_string hs⟩

theorem reads_counterMember {name : Bytes} (hname : PlainText name) (n : ℕ) :
    Member.Reads ⟨name, decimal n, .number n⟩ :=
  ⟨hname, reads_decimal n⟩

/-- The number that is printed for a metric: its value to six digits after the point. -/
def printedValue (value : FiniteDouble) : ℚ :=
  (if value.negative then -1 else 1) * (roundMillionths value.magnitude / 10 ^ 6)

theorem reads_toStringSigned (value : FiniteDouble) :
    ReadsAs (toStringSigned value) (.number (printedValue value)) := by
  set n := roundMillionths value.magnitude with hn
  set digits := decimal (n % 10 ^ 6) with hdigits
  have hlen : digits.length ≤ 6 := length_decimal_le (by omega) (Nat.mod_lt n (by norm_num))
  have hisDigit : ∀ c ∈ List.replicate (6 - digits.length) 48 ++ digits, isDigit c = true := by
    intro c hc
    rcases List.mem_append.mp hc with hc | hc
    · rw [List.eq_of_mem_replicate hc]
      rfl
    · exact forall_isDigit_decimal _ c hc
  -- the digits after the point are padded to six, and count millionths
  have hread := reads_fraction value.negative (n / 10 ^ 6)
    (List.append_ne_nil_of_right_ne_nil _ (decimal_ne_nil _)) hisDigit
  have hvalue : ((n / 10 ^ 6 : ℕ) : ℚ) + (n % 10 ^ 6 : ℕ) / 10 ^ 6 = n / 10 ^ 6 := by
    have hsplit : (10 ^ 6 : ℚ) * (n / 10 ^ 6 : ℕ) + (n % 10 ^ 6 : ℕ) = n := by
      exact_mod_cast Nat.div_add_mod n (10 ^ 6)
    field_simp
    linarith
  rw [digitsValue_replicate_append, hdigits, digitsValue_decimal, ← hdigits, List.length_append,
    List.length_replicate, Nat.sub_add_cancel hlen, hvalue] at hread
  rw [toStringSigned, printedValue, ← hn, ← hdigits]
  simpa only [List.append_assoc, List.cons_append, List.nil_append] using hread

/-! ### The objects -/

/-- The object of a metric. -/
def metricJson (metric : Bytes × FiniteDouble) : Json :=
  .object [(ascii "name", .string metric.1), (ascii "value", .number (printedValue metric.2))]

theorem reads_metricObject {name : Bytes} (hname : PlainText name) (value : FiniteDouble) :
    ReadsAs (metricObject name value) (metricJson (name, value)) := by
  have hmembers : ∀ m ∈ [(⟨ascii "name", quoted name, .string name⟩ : Member),
      ⟨ascii "value", toStringSigned value, .number (printedValue value)⟩], m.Reads := by
    simp only [List.forall_mem_cons]
    exact ⟨reads_stringMember (by decide) hname,
      ⟨(by decide : PlainText (ascii "value")), reads_toStringSigned value⟩, List.forall_mem_nil _⟩
  have hreads := reads_listedObject hmembers
  simpa [metricObject, metricJson, listedObject, enclosed, Member.layout, Member.entry, quoted,
    ascii] using hreads

/-- An end of a connection, as text. -/
def endText (ip : Bytes) (port : UInt16) : Bytes := ip ++ ascii ":" ++ decimal port.toNat

/-- The object of a connection. -/
def connectionJson (entry : ConnectionKey × ConnectionStats) : Json :=
  let key := entry.1
  let stats := entry.2
  .object [(ascii "source", .string (endText key.sourceIp key.sourcePort)),
    (ascii "destination", .string (endText key.destIp key.destPort)),
    (ascii "protocol", .number key.protocol.toNat),
    (ascii "bytes_sent", .number stats.bytesSent.toNat),
    (ascii "bytes_received", .number stats.bytesReceived.toNat),
    (ascii "packets_sent", .number stats.packetsSent.toNat),
    (ascii "packets_received", .number stats.packetsReceived.toNat)]

theorem plainText_endText {ip : Bytes} (hip : PlainText ip) (port : UInt16) :
    PlainText (endText ip port) :=
  (hip.append (by decide)).append (plainText_decimal port.toNat)

set_option maxRecDepth 2000 in
theorem reads_connectionObject {entry : ConnectionKey × ConnectionStats}
    (hsource : PlainText entry.1.sourceIp) (hdest : PlainText entry.1.destIp) :
    ReadsAs (connectionObject entry) (connectionJson entry) := by
  obtain ⟨key, stats⟩ := entry
  have hmembers : ∀ m ∈ [(⟨ascii "source", quoted (endText key.sourceIp key.sourcePort),
        .string (endText key.sourceIp key.sourcePort)⟩ : Member),
      ⟨ascii "destination", quoted (endText key.destIp key.destPort),
        .string (endText key.destIp key.destPort)⟩,
      ⟨ascii "protocol", decimal key.protocol.toNat, .number key.protocol.toNat⟩,
      ⟨ascii "bytes_sent", decimal stats.bytesSent.toNat, .number stats.bytesSent.toNat⟩,
      ⟨ascii "bytes_received", decimal stats.bytesReceived.toNat,
        .number stats.bytesReceived.toNat⟩,
      ⟨ascii "packets_sent", decimal stats.packetsSent.toNat, .number stats.packetsSent.toNat⟩,
      ⟨ascii "packets_received", decimal stats.packetsReceived.toNat,
        .number stats.packetsReceived.toNat⟩], m.Reads := by
    simp only [List.forall_mem_cons]
    exact ⟨reads_stringMember (by decide) (plainText_endText hsource _),
      reads_stringMember (by decide) (plainText_endText hdest _),
      reads_counterMember (by decide) _, reads_counterMember (by decide) _,
      reads_counterMember (by decide) _, reads_counterMember (by decide) _,
      reads_counterMember (by decide) _, List.forall_mem_nil _⟩
  have hreads := reads_listedObject hmembers
  simpa [connectionObject, connectionJson, endText, listedObject, enclosed, Member.layout,
    Member.entry, quoted, ascii] using hreads

/-- The object of a host. -/
def hostJson (host : Bytes × UInt64) : Json :=
  .object [(ascii "ip", .string host.1), (ascii "bytes", .number host.2.toNat)]

theorem reads_hostObject {host : Bytes × UInt64} (hip : PlainText host.1) :
    ReadsAs (hostObject host) (hostJson host) := by
  have hmembers : ∀ m ∈ [(⟨ascii "ip", quoted host.1, .string host.1⟩ : Member),
      ⟨ascii "bytes", decimal host.2.toNat, .number host.2.toNat⟩], m.Reads := by
    simp only [List.forall_mem_cons]
    exact ⟨reads_stringMember (by decide) hip, reads_counterMember (by decide) _,
      List.forall_mem_nil _⟩
  have hreads := reads_listedObject hmembers
  simpa [hostObject, hostJson, listedObject, enclosed, Member.layout, Member.entry, quoted, ascii]
    using hreads

/-! ### What is listed -/

/-- The metrics that `getMetric` still returns, in the order of their names. -/
def presentMetrics (collectors : List MetricList) : List (Bytes × FiniteDouble) :=
  collectors.flatten.filterMap fun metric => metric.2.map (metric.1, ·)

theorem foldl_appendMetric (collectors : List MetricList) (written : Bytes × Bool) :
    collectors.foldl (fun written collector => collector.foldl appendMetric written) written
      = ((presentMetrics collectors).map fun m => metricObject m.1 m.2).foldl appendObject
          written := by
  rw [← List.foldl_flatten, presentMetrics, List.foldl_map, List.foldl_filterMap]
  congr 1
  funext written ⟨name, value⟩
  cases value <;> rfl

theorem plainText_of_mem_presentMetrics {collectors : List MetricList}
    (hnames : ∀ collector ∈ collectors, ∀ metric ∈ collector, PlainText metric.1)
    {m : Bytes × FiniteDouble} (hm : m ∈ presentMetrics collectors) : PlainText m.1 := by
  obtain ⟨metric, hmetric, hvalue⟩ := List.mem_filterMap.mp hm
  obtain ⟨value, -, rfl⟩ := Option.map_eq_some_iff.mp hvalue
  obtain ⟨collector, hcollector, hmem⟩ := List.mem_flatten.mp hmetric
  exact hnames collector hcollector metric hmem

theorem plainText_of_addressText {s : Bytes} (h : AddressText s) : PlainText s := by
  rcases h with rfl | ⟨addr, -, rfl⟩
  · exact fun _ hc => absurd hc List.not_mem_nil
  · refine PlainText.intercalate (by decide) fun t ht => ?_
    obtain ⟨b, -, rfl⟩ := List.mem_map.mp ht
    exact plainText_decimal b.toNat

/-- **The metrics.** -/
theorem read_handleGetMetrics {collectors : List MetricList}
    (hnames : ∀ collector ∈ collectors, ∀ metric ∈ collector, PlainText metric.1)
    (request : HttpRequest) :
    read (handleGetMetrics collectors request).body
      = some (.object [(ascii "metrics",
        .array ((presentMetrics collectors).map metricJson))]) := by
  rw [handleGetMetrics, foldl_appendMetric]
  exact read_listing (by decide : PlainText (ascii "metrics")) rfl fun m hm =>
    reads_metricObject (plainText_of_mem_presentMetrics hnames hm) m.2

section Analyzer

variable {a : PacketAnalyzer} (ha : Addressed a) (request : HttpRequest)
include ha

/-- **The connections.** -/
theorem read_handleGetConnections (sorter : Sorter compareConnectionsByTraffic)
    (visit : ∀ a : PacketAnalyzer, VisitOrder a.connections) :
    read (handleGetConnections sorter visit (some a) request).body
      = some (.object [(ascii "connections",
        .array ((a.getTopConnections sorter (visit a) (limitOf request)).map
          connectionJson))]) := by
  rw [handleGetConnections, ← List.foldl_map]
  apply read_listing (by decide : PlainText (ascii "connections")) rfl
  intro entry hentry
  rw [listedConnections, getTopConnections_eq] at hentry
  have hlookup := (mem_entries (visit a)).mp (mem_of_mem_topK sorter hentry)
  have haddress := ha.connections entry.1 (Finmap.mem_of_lookup_eq_some hlookup)
  exact reads_connectionObject (plainText_of_addressText haddress.1)
    (plainText_of_addressText haddress.2)

/-- **The hosts.** -/
theorem read_handleGetTopHosts (sorter : Sorter compareHosts)
    (visit : ∀ a : PacketAnalyzer, VisitOrder a.hostTrafficStats) :
    read (handleGetTopHosts sorter visit (some a) request).body
      = some (.object [(ascii "hosts",
        .array ((listedHosts sorter visit a request).map hostJson))]) := by
  rw [handleGetTopHosts, ← List.foldl_map]
  apply read_listing (by decide : PlainText (ascii "hosts")) rfl
  intro host hhost
  have hmem := (sorter.perm _).mem_iff.mp (List.mem_of_mem_take hhost)
  have hlookup := (mem_entries (visit a)).mp hmem
  exact reads_hostObject
    (plainText_of_addressText (ha.hosts host.1 (Finmap.mem_of_lookup_eq_some hlookup)))

end Analyzer

/-- **The listings are JSON** with what they list, in its order. -/
theorem listings_json {collectors : List MetricList}
    (hnames : ∀ collector ∈ collectors, ∀ metric ∈ collector, PlainText metric.1)
    {a : PacketAnalyzer} (ha : Addressed a) (request : HttpRequest) :
    read (handleGetMetrics collectors request).body
        = some (.object [(ascii "metrics", .array ((presentMetrics collectors).map metricJson))])
    ∧ (∀ (sorter : Sorter compareConnectionsByTraffic)
        (visit : ∀ a : PacketAnalyzer, VisitOrder a.connections),
      read (handleGetConnections sorter visit (some a) request).body
        = some (.object [(ascii "connections",
          .array ((a.getTopConnections sorter (visit a) (limitOf request)).map connectionJson))]))
    ∧ ∀ (sorter : Sorter compareHosts)
        (visit : ∀ a : PacketAnalyzer, VisitOrder a.hostTrafficStats),
      ∃ hosts : List (Bytes × UInt64),
        hosts.Perm (entries a.hostTrafficStats (visit a))
        ∧ hosts.Pairwise (fun host next => next.2 ≤ host.2)
        ∧ read (handleGetTopHosts sorter visit (some a) request).body
          = some (.object [(ascii "hosts",
            .array ((hosts.take (limitOf request).toNat).map hostJson))]) := by
  refine ⟨read_handleGetMetrics hnames request, read_handleGetConnections ha request,
    fun sorter visit => ?_⟩
  have hlisted : (sortedHosts sorter visit a).take (limitOf request).toNat
      = listedHosts sorter visit a request := List.take_eq_take_min
  refine ⟨sortedHosts sorter visit a, sorter.perm _, ?_, ?_⟩
  · exact pairwise_sort sorter (fun _ _ => decide_eq_true_iff) _
  · rw [hlisted]
    exact read_handleGetTopHosts ha request sorter visit

/-- A value of a half. -/
def oneHalf : FiniteDouble := ⟨false, 1 / 2, by norm_num⟩

/-- A query from 10.0.0.1 to 10.0.0.2. -/
def addressedQuery : PacketInfo :=
  { query with sourceIp := dottedDecimal [10, 0, 0, 1], destIp := dottedDecimal [10, 0, 0, 2] }

/-- One from another port. -/
def otherQuery : PacketInfo := { addressedQuery with sourcePort := 40001 }

/-- Two metrics, another one that is gone, and the connections of two queries. -/
theorem listings_json_queries :
    let a := ((create []).processPacket addressedQuery).processPacket otherQuery
    let metrics := [[(ascii "cpu_usage", some oneHalf), (ascii "memory_usage", none)],
      [(ascii "swap_total", some oneHalf)]]
    let sorter := mergeSorter compareConnectionsByTraffic_byWeight
    let visit := fun a : PacketAnalyzer => someOrder a.connections
    let listed := a.getTopConnections sorter (visit a) 10
    read (handleGetMetrics metrics plainRequest).body
        = some (.object [(ascii "metrics", .array [metricJson (ascii "cpu_usage", oneHalf),
          metricJson (ascii "swap_total", oneHalf)])])
    ∧ listed.length = 2
    ∧ read (handleGetConnections sorter visit (some a) plainRequest).body
        = some (.object [(ascii "connections", .array (listed.map connectionJson))]) := by
  intro a metrics sorter visit listed
  have hquery : addressedQuery.Addressed := ⟨.inr ⟨_, rfl, rfl⟩, .inr ⟨_, rfl, rfl⟩⟩
  have hother : otherQuery.Addressed := hquery
  have hcount : a.connections.keys.card = 2 := by decide +kernel
  have h := @listings_json metrics (by decide) a
    (addressed_processPacket (addressed_processPacket (addressed_create []) hquery) hother)
    plainRequest
  exact ⟨h.1, (length_getTopConnections a sorter (visit a) 10).trans (by rw [hcount]; rfl),
    h.2.1 _ _⟩

end NetSentry.RestApi
