import NetSentry.Api.Equiv.ListingJson
import NetSentry.Api.Equiv.RestApi
import NetSentry.Api.Server
import NetSentry.Core.Equiv.MetricRegistry
import NetSentry.Network.Equiv.Addresses
import NetSentry.Network.Equiv.ProtocolDetection

/-!
# What the server answers

`respond_wellFormed`: whatever has been captured and measured, every request is answered, either
with one of two plain texts or with JSON.

* `processRequest_handler`: what a request for a registered path is answered.
* `read_handleGetSystemInfo`, `read_networkStatsBody`, `read_error`: bodies that are one object.
-/

namespace NetSentry.RestApi

open Bytes KeyedFold PacketAnalyzer Json Checked Search

/-! ### Bodies that are one object -/

/-- The text of an object that is a whole body. -/
def plainObject (ms : List Member) : Bytes :=
  enclosed 123 (ascii "\n  ") (ascii "\n  ") (ascii "\n") 125 (ms.map Member.layout)

theorem read_plainObject {ms : List Member} (h : ∀ m ∈ ms, m.Reads) :
    read (plainObject ms) = some (.object (ms.map Member.entry)) := by
  have hread := read_append (reads_object (by decide : White (ascii "\n  "))
    (by decide : White (ascii "\n  ")) (by decide : White (ascii "\n")) h) (by decide : White [])
  rwa [List.append_nil] at hread

/-- The errors. -/
theorem read_error {text : Bytes} (htext : PlainText text) :
    read (ascii "\x7b\n  \"error\": \"" ++ text ++ ascii "\"\n\x7d")
      = some (.object [(ascii "error", .string text)]) := by
  have hread := read_plainObject (List.forall_mem_singleton.mpr
    (reads_stringMember (by decide : PlainText (ascii "error")) htext))
  simpa [plainObject, enclosed, Member.layout, Member.entry, quoted, ascii] using hread

/-- **The statistics.** -/
theorem read_networkStatsBody (connections : ℕ) :
    read (networkStatsBody connections)
      = some (.object [(ascii "status", .string (ascii "Active")),
          (ascii "connections", .number connections)]) := by
  have hmembers : ∀ m ∈ [(⟨ascii "status", quoted (ascii "Active"), .string (ascii "Active")⟩ :
      Member), ⟨ascii "connections", decimal connections, .number connections⟩], m.Reads := by
    simp only [List.forall_mem_cons]
    exact ⟨reads_stringMember (by decide) (by decide), reads_counterMember (by decide) _,
      List.forall_mem_nil _⟩
  have hread := read_plainObject hmembers
  simpa [networkStatsBody, plainObject, enclosed, Member.layout, Member.entry, quoted, ascii]
    using hread

/-- **The system.** -/
theorem read_handleGetSystemInfo {facts : SystemFacts}
    (hhostname : PlainText (getSystemHostname facts)) (request : HttpRequest) :
    read (handleGetSystemInfo facts request).body = some (.object
      [(ascii "hostname", .string (getSystemHostname facts)),
        (ascii "platform", .string getSystemPlatform),
        (ascii "num_cpus", .number facts.hardwareConcurrency.toNat),
        (ascii "uptime", .number (getSystemUptime facts))]) := by
  have hmembers : ∀ m ∈ [(⟨ascii "hostname", quoted (getSystemHostname facts),
        .string (getSystemHostname facts)⟩ : Member),
      ⟨ascii "platform", quoted getSystemPlatform, .string getSystemPlatform⟩,
      ⟨ascii "num_cpus", decimal facts.hardwareConcurrency.toNat,
        .number facts.hardwareConcurrency.toNat⟩,
      ⟨ascii "uptime", decimal (getSystemUptime facts), .number (getSystemUptime facts)⟩],
      m.Reads := by
    simp only [List.forall_mem_cons]
    exact ⟨reads_stringMember (by decide) hhostname,
      reads_stringMember (by decide) (by decide), reads_counterMember (by decide) _,
      reads_counterMember (by decide) _, List.forall_mem_nil _⟩
  have hread := read_plainObject hmembers
  simpa [handleGetSystemInfo, plainObject, enclosed, Member.layout, Member.entry, quoted, ascii]
    using hread

/-! ### Routes -/

theorem route_addRoute (routes : Routes) (path path' : Bytes) (method method' : HttpMethod)
    (handler : RouteHandler) :
    route (addRoute routes path method handler) path' method'
      = if path' = path ∧ method' = method then some handler else route routes path' method' := by
  unfold route addRoute
  by_cases hpath : path' = path
  · subst hpath
    rw [Finmap.lookup_insert, Option.bind_some]
    by_cases hmethod : method' = method
    · subst hmethod
      rw [Finmap.lookup_insert, if_pos ⟨rfl, rfl⟩]
    · rw [Finmap.lookup_insert_of_ne _ hmethod, if_neg fun h => hmethod h.2]
      cases routes.lookup path' <;> rfl
  · rw [Finmap.lookup_insert_of_ne _ hpath, if_neg fun h => hpath h.1]

/-- The handler that is registered for a path. -/
def handlerAt (handlers : Handlers) (path : Bytes) : Option RouteHandler :=
  if path = ascii "/api/v1/system/info" then some handlers.handleGetSystemInfo
  else if path = ascii "/api/v1/network/hosts" then some handlers.handleGetTopHosts
  else if path = ascii "/api/v1/network/connections" then some handlers.handleGetConnections
  else if path = ascii "/api/v1/network/stats" then some handlers.handleGetNetworkStats
  else if path = ascii "/api/v1/metrics/{name}" then some handlers.handleGetMetric
  else if path = ascii "/api/v1/metrics" then some handlers.handleGetMetrics
  else none

/-- **The routes** are for the method `GET` alone. -/
theorem route_setupRoutes (handlers : Handlers) (path : Bytes) (method : HttpMethod) :
    route (setupRoutes handlers) path method
      = if method = .get then handlerAt handlers path else none := by
  have hempty : route ∅ path method = none := by rw [route, Finmap.lookup_empty, Option.bind_none]
  simp only [setupRoutes, route_addRoute, hempty, handlerAt]
  by_cases hmethod : method = .get
  · simp only [hmethod, and_true, if_true]
  · simp only [hmethod, and_false, if_false]

theorem handlerAt_eq_none_iff (handlers : Handlers) (path : Bytes) :
    handlerAt handlers path = none ↔ path ∉ registeredPaths := by
  unfold handlerAt registeredPaths
  split_ifs <;> simp_all

/-- **A request for a registered path** is answered with the response of its handler. -/
theorem processRequest_handler {routes : Routes} {req : IncomingRequest} {method : HttpMethod}
    {handler : RouteHandler} (hverb : req.verb = some method)
    (hroute : route routes (pathOf req.target) method = some handler) :
    ∃ request : HttpRequest, request.path = pathOf req.target ∧
      processRequest routes req = .ok (answered req (handler request)) := by
  obtain ⟨request, hpath, heq⟩ := processRequest_eq routes hverb
  rw [hroute] at heq
  exact ⟨request, hpath, heq⟩

/-! ### What the handlers find -/

theorem plainText_name (metric : MetricPointer) : PlainText metric.name := by
  rcases metric with (_ | i) | metric
  · decide
  · exact ((by decide : PlainText (ascii "cpu.core.")).append (plainText_decimal i)).append
      (by decide)
  · cases metric <;> decide

/-- No metric has the name that the path of the metrics stands for. -/
theorem name_ne_braces (metric : MetricPointer) : metric.name ≠ ascii "{name}" := by
  intro hname
  have hhead := congrArg List.head? hname
  rcases metric with (_ | i) | metric
  · cases hhead
  · cases hhead
  · cases metric <;> cases hhead

/-- The collectors of the server are those of `main`. -/
def OfMain (collectors : List (MetricRegistry MetricPointer)) : Prop :=
  ∃ cpu : CpuCollector, collectors = [cpu.registry, MemoryCollector.registry]

/-- What a collector of `main` lists has the name of a metric. -/
theorem exists_name_of_mem {collectors : List (MetricRegistry MetricPointer)}
    (h : OfMain collectors) {collector : MetricRegistry MetricPointer}
    (hcollector : collector ∈ collectors) {entry : Bytes × MetricPointer}
    (hentry : entry ∈ collector.metrics.entries) : entry.1 = entry.2.name := by
  obtain ⟨cpu, rfl⟩ := h
  have hregistry : ∃ metrics, collector = .ofMetrics MetricPointer.name metrics := by
    rcases List.mem_pair.mp hcollector with rfl | rfl
    · exact ⟨_, rfl⟩
    · exact ⟨_, rfl⟩
  obtain ⟨metrics, rfl⟩ := hregistry
  exact ((MetricRegistry.mem_ofMetrics fun _ _ _ _ h =>
    MetricPointer.name_injective h).mp hentry).2

theorem lookup_metricValues {collector : MetricRegistry MetricPointer} {name : Bytes}
    (h : ∀ entry ∈ collector.metrics.entries, entry.1 ≠ name)
    (value : MetricPointer → FiniteDouble) :
    (metricValues collector value).lookup name = none := by
  unfold metricValues
  have hfold : ∀ (entries : List (Bytes × MetricPointer)) (values : Collector),
      (∀ entry ∈ entries, entry.1 ≠ name) → values.lookup name = none →
      (entries.foldl (fun values entry => values.insert entry.1 (value entry.2).toRat)
        values).lookup name = none := by
    intro entries
    induction entries with
    | nil => exact fun values _ hvalues => hvalues
    | cons entry entries ih =>
      intro values hentries hvalues
      refine ih _ (fun e he => hentries e (List.mem_cons_of_mem entry he)) ?_
      rwa [Finmap.lookup_insert_of_ne _ (hentries entry List.mem_cons_self).symm]
  exact hfold _ ∅ h (Finmap.lookup_empty name)

/-- The analyzer has processed what has been captured, in any order and with any resets. -/
def HasCaptured (a : PacketAnalyzer) : Prop :=
  ∃ (parsers : List ProtocolParser) (calls : List PacketAnalyzer.Call),
    a = calls.foldl call (create parsers) ∧ ∀ packet, .processPacket packet ∈ calls →
      ∃ u outcome, PacketCapture.capturePacket u outcome = .ok packet

theorem HasCaptured.addressed {a : PacketAnalyzer} (h : HasCaptured a) : Addressed a := by
  obtain ⟨parsers, calls, rfl, hcalls⟩ := h
  refine addressed_of_run (addressed_create parsers) fun packet hpacket => ?_
  obtain ⟨u, outcome, hcapture⟩ := hcalls packet hpacket
  exact PacketCapture.addressed_capturePacket hcapture

/-! ### Answers -/

/-- The paths that need an analyzer. -/
def networkPaths : List Bytes :=
  ["/api/v1/network/stats", "/api/v1/network/connections", "/api/v1/network/hosts"].map ascii

/-- The status of the answer to a `GET` of a registered path. -/
def statusOf (packetAnalyzer : Option PacketAnalyzer) (path : Bytes) : ℤ :=
  if path = ascii "/api/v1/metrics/{name}" then 404
  else if packetAnalyzer.isNone && networkPaths.contains path then 503
  else 200

/-- The handlers answer with JSON, and with this status. -/
def Answers (handler : RouteHandler) (path : Bytes) (status : ℤ) : Prop :=
  ∀ request : HttpRequest, request.path = path → (handler request).statusCode = status ∧
    (handler request).headers = jsonHeaders ∧ ∃ v, read (handler request).body = some v

section Answers

variable {r : Resources MetricPointer}

/-- Without an analyzer, the handlers that need one answer that there is none. -/
theorem answers_analyzerUnavailable (path : Bytes) :
    Answers (fun _ => analyzerUnavailable) path 503 := by
  have hbody : analyzerUnavailable.body = ascii "\x7b\n  \"error\": \"" ++
      ascii "Network packet analyzer not available" ++ ascii "\"\n\x7d" := by decide
  have hread := read_error (by decide :
    PlainText (ascii "Network packet analyzer not available"))
  rw [← hbody] at hread
  exact fun _ _ => ⟨rfl, rfl, _, hread⟩

theorem answers_handleGetMetrics (hcollectors : OfMain r.collectors) (path : Bytes) :
    Answers (handlers r).handleGetMetrics path 200 := by
  refine fun request _ => ⟨rfl, rfl, _, read_handleGetMetrics ?_ request⟩
  intro list hlist metric hmetric
  obtain ⟨collector, hcollector, rfl⟩ := List.mem_map.mp hlist
  obtain ⟨name, hname, rfl⟩ := List.mem_map.mp hmetric
  obtain ⟨entry, hentry, rfl⟩ := List.mem_map.mp hname
  show PlainText entry.1
  rw [exists_name_of_mem hcollectors hcollector hentry]
  exact plainText_name entry.2

/-- The only path that is dispatched to `handleGetMetric` names no metric. -/
theorem answers_handleGetMetric (hcollectors : OfMain r.collectors) :
    Answers (handlers r).handleGetMetric (ascii "/api/v1/metrics/{name}") 404 := by
  intro request hpath
  have hname : request.path.rtakeWhile (· ≠ 47) = ascii "{name}" := by
    rw [hpath]
    decide
  have hnone : findMetric (r.collectors.map fun c => metricValues c r.value)
      (ascii "{name}") = none := by
    refine List.findSome?_eq_none_iff.mpr fun values hvalues => ?_
    obtain ⟨collector, hcollector, rfl⟩ := List.mem_map.mp hvalues
    refine lookup_metricValues (fun entry hentry => ?_) r.value
    rw [exists_name_of_mem hcollectors hcollector hentry]
    exact name_ne_braces entry.2
  have hresponse : (handlers r).handleGetMetric request
      = { statusCode := 404, headers := jsonHeaders, body := metricNotFound } := by
    show handleGetMetric (r.collectors.map fun c => metricValues c r.value) request = _
    rw [handleGetMetric, hname, hnone]
    rfl
  have hbody : metricNotFound
      = ascii "\x7b\n  \"error\": \"" ++ ascii "Metric not found" ++ ascii "\"\n\x7d" := by decide
  have hread := read_error (by decide : PlainText (ascii "Metric not found"))
  rw [← hbody] at hread
  rw [hresponse]
  exact ⟨rfl, rfl, _, hread⟩

/-- A handler that needs an analyzer. -/
theorem answers_network {path : Bytes} (hpath : path ∈ networkPaths)
    {handler : Option PacketAnalyzer → RouteHandler}
    (hnone : ∀ request, handler none request = analyzerUnavailable)
    (hsome : ∀ a ∈ r.packetAnalyzer, Answers (handler (some a)) path 200) :
    Answers (handler r.packetAnalyzer) path (statusOf r.packetAnalyzer path) := by
  have hne : path ≠ ascii "/api/v1/metrics/\x7bname\x7d" := by
    rintro rfl
    exact absurd hpath (by decide)
  rw [statusOf, if_neg hne]
  cases hanalyzer : r.packetAnalyzer with
  | none =>
    rw [List.contains_iff_mem.mpr hpath, funext hnone]
    exact answers_analyzerUnavailable path
  | some a =>
    exact hsome a hanalyzer

theorem statusOf_of_notMem {path : Bytes} (hmem : path ∉ networkPaths)
    (hne : path ≠ ascii "/api/v1/metrics/\x7bname\x7d") (packetAnalyzer : Option PacketAnalyzer) :
    statusOf packetAnalyzer path = 200 := by
  have hcontains : networkPaths.contains path = false :=
    Bool.eq_false_iff.mpr fun h => hmem (List.contains_iff_mem.mp h)
  rw [statusOf, if_neg hne, hcontains, Bool.and_false]
  rfl

/-- **Every handler answers with JSON**, and with the status of its path. -/
theorem answers_handlerAt (hcollectors : OfMain r.collectors)
    (hanalyzer : ∀ a ∈ r.packetAnalyzer, HasCaptured a)
    (hhostname : PlainText (getSystemHostname r.facts)) {path : Bytes} {handler : RouteHandler}
    (h : handlerAt (handlers r) path = some handler) :
    Answers handler path (statusOf r.packetAnalyzer path) := by
  unfold handlerAt at h
  split_ifs at h with hinfo hhosts hconnections hstats hmetric hmetrics <;>
    obtain rfl := Option.some.inj h
  · subst hinfo
    rw [statusOf_of_notMem (by decide) (by decide)]
    exact fun request _ => ⟨rfl, rfl, _, read_handleGetSystemInfo hhostname request⟩
  · subst hhosts
    exact answers_network (by decide) (fun _ => rfl) fun a ha request _ => ⟨rfl, rfl, _,
      read_handleGetTopHosts (hanalyzer a ha).addressed request r.hostSorter r.visitHosts⟩
  · subst hconnections
    exact answers_network (by decide) (fun _ => rfl) fun a ha request _ => ⟨rfl, rfl, _,
      read_handleGetConnections (hanalyzer a ha).addressed request r.connectionSorter
        r.visitConnections⟩
  · subst hstats
    exact answers_network (by decide) (fun _ => rfl) fun a _ request _ =>
      ⟨rfl, rfl, _, read_networkStatsBody _⟩
  · subst hmetric
    exact answers_handleGetMetric hcollectors
  · subst hmetrics
    rw [statusOf_of_notMem (by decide) (by decide)]
    exact answers_handleGetMetrics hcollectors _

end Answers

/-- **Every request is answered**, whatever has been measured and captured, and whatever the target,
the fields and the body of the request are: a `GET` of a registered path with JSON, and any other
request with one of two plain texts. -/
theorem respond_wellFormed {r : Resources MetricPointer} (hcollectors : OfMain r.collectors)
    (hanalyzer : ∀ a ∈ r.packetAnalyzer, HasCaptured a)
    (hhostname : PlainText (getSystemHostname r.facts)) (req : IncomingRequest) :
    ∃ response, respond r req = .ok response ∧
      response.version = req.version ∧ response.keepAlive = req.keepAlive ∧
      if req.verb = some .get ∧ pathOf req.target ∈ registeredPaths then
        response.result = statusOf r.packetAnalyzer (pathOf req.target) ∧
        response.fields = jsonHeaders ∧ ∃ v, read response.body = some v
      else
        response.fields
          = (∅ : Finmap fun _ : Bytes => Bytes).insert contentType (ascii "text/plain") ∧
        (response.result, response.body) = if req.verb = none
          then (405, ascii "Method not allowed") else (404, ascii "Not found") := by
  cases hverb : req.verb with
  | none =>
    refine ⟨_, by rw [respond, processRequest, hverb]; rfl, rfl, rfl, ?_⟩
    rw [if_neg fun h => (Option.some_ne_none _).symm h.1]
    exact ⟨rfl, rfl⟩
  | some method =>
    by_cases hget : method = .get ∧ pathOf req.target ∈ registeredPaths
    · obtain ⟨rfl, hpath⟩ := hget
      -- the path is registered, and its handler is asked
      obtain ⟨handler, hhandler⟩ : ∃ handler,
          handlerAt (handlers r) (pathOf req.target) = some handler :=
        Option.ne_none_iff_exists'.mp fun hnone =>
          (handlerAt_eq_none_iff _ _).mp hnone hpath
      have hroute := route_setupRoutes (handlers r) (pathOf req.target) .get
      rw [if_pos rfl, hhandler] at hroute
      obtain ⟨request, hrequest, hresponse⟩ := processRequest_handler hverb hroute
      obtain ⟨hstatus, hheaders, v, hread⟩ :=
        answers_handlerAt hcollectors hanalyzer hhostname hhandler request hrequest
      refine ⟨_, hresponse, rfl, rfl, ?_⟩
      rw [if_pos ⟨rfl, hpath⟩]
      refine ⟨hstatus, ?_, v, hread⟩
      show (if contentType ∈ (handler request).headers then _ else _) = jsonHeaders
      have hjson : contentType ∈ jsonHeaders := Finmap.mem_insert.mpr (.inl rfl)
      rw [hheaders, if_pos hjson]
    · -- there are no routes but those for `GET`
      have hroute : route (setupRoutes (handlers r)) (pathOf req.target) method = none := by
        rw [route_setupRoutes]
        by_cases hmethod : method = .get
        · rw [if_pos hmethod, handlerAt_eq_none_iff]
          exact fun hpath => hget ⟨hmethod, hpath⟩
        · rw [if_neg hmethod]
      refine ⟨_, processRequest_notFound hverb hroute, rfl, rfl, ?_⟩
      rw [if_neg fun h => hget ⟨Option.some.inj h.1, h.2⟩, if_neg (Option.some_ne_none _)]
      exact ⟨rfl, rfl⟩

/-- A request for five connections. -/
def connectionsRequest : IncomingRequest :=
  { cpuUsageRequest with target := ascii "/api/v1/network/connections?limit=5" }

/-- A frame from another host. -/
def otherFrame : Ipv4Frame := { requestFrame with sourceAddr := ⟨[10, 0, 0, 3], rfl⟩ }

/-- What has been captured: a frame twice, a reset, and then two frames of different hosts. -/
def capturedFrames : List PacketAnalyzer.Call :=
  let packet := fun frame : Ipv4Frame => frame.packetInfo 1 500 81 frame.encode
  [.processPacket (packet requestFrame), .processPacket (packet requestFrame), .reset,
    .processPacket (packet requestFrame), .processPacket (packet otherFrame)]

theorem respond_wellFormed_connections :
    ∃ (r : Resources MetricPointer) (a : PacketAnalyzer), r.packetAnalyzer = some a ∧
      a.connections.keys.card = 2 ∧ ∃ response, respond r connectionsRequest = .ok response ∧
        response.result = 200 ∧ ∃ v, read response.body = some v := by
  let a := capturedFrames.foldl call (create [])
  let cpu : CpuCollector := .create none
  let r : Resources MetricPointer := {
    collectors := [cpu.registry, MemoryCollector.registry]
    value := fun _ => oneHalf
    packetAnalyzer := some a
    facts := ⟨some (ascii "monitor\x00"), 4, 12⟩
    connectionSorter := TopK.mergeSorter compareConnectionsByTraffic_byWeight
    hostSorter := TopK.mergeSorter
      (fun _ _ => decide_eq_true_iff : TopK.ByWeight compareHosts Prod.snd)
    visitConnections := fun a => someOrder a.connections
    visitHosts := fun a => someOrder a.hostTrafficStats }
  have hanalyzer : ∀ a ∈ r.packetAnalyzer, HasCaptured a := by
    rintro _ ⟨⟩
    refine ⟨[], capturedFrames, rfl, fun packet hpacket => ?_⟩
    obtain ⟨frame, rfl⟩ : ∃ frame : Ipv4Frame,
        packet = frame.packetInfo 1 500 81 frame.encode := by
      simp only [capturedFrames, List.mem_cons, PacketAnalyzer.Call.processPacket.injEq,
        reduceCtorEq, List.not_mem_nil, or_false, false_or] at hpacket
      rcases hpacket with rfl | rfl | rfl | rfl
      · exact ⟨requestFrame, rfl⟩
      · exact ⟨requestFrame, rfl⟩
      · exact ⟨requestFrame, rfl⟩
      · exact ⟨otherFrame, rfl⟩
    exact ⟨⟨0, 0, 0, 0, 0⟩, _, PacketCapture.capturePacket_captured _ frame 1 500 81⟩
  obtain ⟨response, hresponse, -, -, hanswer⟩ :=
    respond_wellFormed ⟨cpu, rfl⟩ hanalyzer (by decide) connectionsRequest
  rw [if_pos ⟨rfl, by decide +kernel⟩] at hanswer
  exact ⟨r, a, rfl, by decide +kernel, response, hresponse,
    hanswer.1.trans (by decide +kernel), hanswer.2.2⟩

end NetSentry.RestApi
