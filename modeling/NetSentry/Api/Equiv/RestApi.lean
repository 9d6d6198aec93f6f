import NetSentry.Api.RestApi

/-!
# Which requests find a handler

The routes are looked up by the whole path, so that the braces of a registered path stand for
themselves and for nothing else.

* `parseQueryParams_defined`: a query is parsed without a faulty access.
* `processRequest_eq`, `processRequest_notFound`: how a request is answered, and one for a path that
  is not registered.
* `not_answersMetric`: no metric is answered for by its name.
-/

namespace NetSentry.RestApi

open Bytes Checked Search

/-! ### The query -/

theorem addParam_defined (params : Finmap fun _ : Bytes => Bytes) (param : Bytes) :
    Defined (addParam params param) := by
  unfold addParam
  cases hfind : find [61] param with
  | none => exact defined_pure params
  | some eqPos =>
    have hlen := find_add_length_le hfind
    rw [List.length_singleton] at hlen
    simp only [substr_of_le eqPos (Nat.zero_le param.length), substrFrom_of_le hlen, bind_ok]
    exact defined_pure _

theorem paramsLoop_defined (query : Bytes) (params : Finmap fun _ : Bytes => Bytes) (start : ℕ)
    (stop : Option ℕ) (hstop : start < query.length → ∀ e ∈ stop, start ≤ e) :
    Defined (paramsLoop query params start stop hstop) := by
  induction hm : query.length - start using Nat.strong_induction_on
    generalizing start stop params with
  | _ m ih =>
    by_cases hstart : start < query.length
    · cases stop with
      | none =>
        rw [paramsLoop.eq_def, dif_pos hstart]
        simp only [substrFrom_of_le hstart.le, bind_ok]
        exact addParam_defined params _
      | some e =>
        have hle := hstop hstart e rfl
        obtain ⟨params', hparams⟩ :=
          addParam_defined params ((query.drop start).take (e - start))
        rw [paramsLoop.eq_def, dif_pos hstart]
        simp only [substr_of_le _ hstart.le, bind_ok, hparams]
        exact ih _ (by omega) _ _ _ _ rfl
    · rw [paramsLoop.eq_def, dif_neg hstart]
      exact defined_pure params

/-- **A query is parsed** without a faulty access. -/
theorem parseQueryParams_defined (query : Bytes) (params : Finmap fun _ : Bytes => Bytes) :
    Defined (parseQueryParams query params) :=
  paramsLoop_defined query params 0 _ _

/-! ### Routes -/

theorem lookup_addRoute_of_ne (routes : Routes) {path p : Bytes} (method : HttpMethod)
    (handler : RouteHandler) (h : p ≠ path) :
    (addRoute routes path method handler).lookup p = routes.lookup p :=
  Finmap.lookup_insert_of_ne routes h

/-- The paths that are registered. -/
def registeredPaths : List Bytes :=
  ["/api/v1/metrics", "/api/v1/metrics/\x7bname\x7d", "/api/v1/network/stats",
    "/api/v1/network/connections", "/api/v1/network/hosts", "/api/v1/system/info"].map ascii

theorem lookup_setupRoutes (handlers : Handlers) {path : Bytes} (h : path ∉ registeredPaths) :
    (setupRoutes handlers).lookup path = none := by
  simp only [registeredPaths, List.map_cons, List.map_nil, List.mem_cons, List.not_mem_nil,
    or_false, not_or] at h
  obtain ⟨hmetrics, hmetric, hstats, hconnections, hhosts, hinfo⟩ := h
  unfold setupRoutes
  rw [lookup_addRoute_of_ne _ _ _ hinfo, lookup_addRoute_of_ne _ _ _ hhosts,
    lookup_addRoute_of_ne _ _ _ hconnections, lookup_addRoute_of_ne _ _ _ hstats,
    lookup_addRoute_of_ne _ _ _ hmetric, lookup_addRoute_of_ne _ _ _ hmetrics,
    Finmap.lookup_empty]

/-- The handler that `processRequest` finds. -/
def route (routes : Routes) (path : Bytes) (method : HttpMethod) : Option RouteHandler :=
  (routes.lookup path).bind fun methods => methods.lookup method

/-- The response to a request that no route is found for. -/
def notFound (req : IncomingRequest) : OutgoingResponse where
  version := req.version
  keepAlive := req.keepAlive
  result := 404
  fields := (∅ : Finmap fun _ : Bytes => Bytes).insert contentType (ascii "text/plain")
  body := ascii "Not found"

/-- The path of a target: what comes before the first question mark. -/
def pathOf (target : Bytes) : Bytes :=
  match find [63] target with
  | some pos => target.take pos
  | none => target

/-- What becomes of the response of a handler. -/
def answered (req : IncomingRequest) (response : HttpResponse) : OutgoingResponse where
  version := req.version
  keepAlive := req.keepAlive
  result := response.statusCode
  fields :=
    if contentType ∈ response.headers then response.headers
    else response.headers.insert contentType (ascii "application/json")
  body := response.body

/-- **A request is answered** by the handler of its path, whatever the query is, or it is not
found. -/
theorem processRequest_eq (routes : Routes) {req : IncomingRequest} {method : HttpMethod}
    (hverb : req.verb = some method) :
    ∃ request : HttpRequest, request.path = pathOf req.target ∧
      processRequest routes req = .ok ((route routes (pathOf req.target) method).elim
        (notFound req) fun handler => answered req (handler request)) := by
  unfold processRequest pathOf route
  let headers : Finmap fun _ : Bytes => Bytes :=
    req.fields.foldl (fun headers field => headers.insert field.1 field.2) ∅
  cases hfind : find [63] req.target with
  | none =>
    refine ⟨⟨method, req.target, headers, ∅, req.body⟩, rfl, ?_⟩
    simp only [hverb, pure_bind, ne_eq, not_true_eq_false, if_false]
    cases (routes.lookup req.target).bind fun methods => methods.lookup method <;> rfl
  | some pos =>
    have hlen := find_add_length_le hfind
    rw [List.length_singleton] at hlen
    simp only [hverb, substr_of_le pos (Nat.zero_le req.target.length), substrFrom_of_le hlen,
      bind_ok, pure_bind, List.drop_zero]
    by_cases hquery : req.target.drop (pos + 1) ≠ []
    · -- whatever the query is, it is parsed
      obtain ⟨params, hparams⟩ := parseQueryParams_defined (req.target.drop (pos + 1)) ∅
      refine ⟨⟨method, req.target.take pos, headers, params, req.body⟩, rfl, ?_⟩
      simp only [if_pos hquery, hparams, bind_ok]
      cases (routes.lookup (req.target.take pos)).bind fun methods => methods.lookup method <;> rfl
    · refine ⟨⟨method, req.target.take pos, headers, ∅, req.body⟩, rfl, ?_⟩
      simp only [if_neg hquery]
      cases (routes.lookup (req.target.take pos)).bind fun methods => methods.lookup method <;> rfl

/-- **A request for what is not registered** is answered with a plain text. -/
theorem processRequest_notFound {routes : Routes} {req : IncomingRequest} {method : HttpMethod}
    (hverb : req.verb = some method) (hroute : route routes (pathOf req.target) method = none) :
    processRequest routes req = .ok (notFound req) := by
  obtain ⟨_, -, heq⟩ := processRequest_eq routes hverb
  rwa [hroute] at heq

/-! ### Metrics by name -/

/-- A name that can stand in a path: without a slash, a question mark or a brace. -/
def PathName (name : Bytes) : Prop := 47 ∉ name ∧ 63 ∉ name ∧ 123 ∉ name ∧ 125 ∉ name

instance (name : Bytes) : Decidable (PathName name) :=
  inferInstanceAs (Decidable (_ ∧ _ ∧ _ ∧ _))

/-- The target that asks for the metric of a name, with a query or without one. -/
def metricTarget (name : Bytes) (query : Option Bytes) : Bytes :=
  ascii "/api/v1/metrics/" ++ name ++ query.elim [] (63 :: ·)

theorem pathOf_metricTarget {name : Bytes} (hname : PathName name) (query : Option Bytes) :
    pathOf (metricTarget name query) = ascii "/api/v1/metrics/" ++ name := by
  have hno : 63 ∉ ascii "/api/v1/metrics/" ++ name := by
    rw [List.mem_append]
    exact not_or.mpr ⟨by decide, hname.2.1⟩
  unfold pathOf metricTarget
  cases query with
  | none => rw [Option.elim_none, List.append_nil, find_singleton_eq_none hno]
  | some q =>
    rw [Option.elim_some, find_singleton_append q hno]
    exact List.take_left

/-- The path of a metric is not registered: it has one byte more than the first path and none of the
braces of the second. -/
theorem metricPath_not_registered {name : Bytes} (hname : PathName name) :
    ascii "/api/v1/metrics/" ++ name ∉ registeredPaths := by
  intro hmem
  have hbegins : ∀ p ∈ registeredPaths, p.take 16 = ascii "/api/v1/metrics/" →
      p = ascii "/api/v1/metrics/" ++ ascii "\x7bname\x7d" := by decide +kernel
  have hpath := hbegins _ hmem (List.take_left' (by decide))
  rw [List.append_cancel_left hpath] at hname
  exact hname.2.2.1 (by decide)

/-- The request is dispatched to `handleGetMetric` and answered with the name and the value of the
metric of the first collector that has it, and with the error where none has it. -/
def AnswersMetric (collectors : List Collector) (handlers : Handlers) (name : Bytes)
    (req : IncomingRequest) : Prop :=
  ∃ response, processRequest
      (setupRoutes { handlers with handleGetMetric := handleGetMetric collectors }) req
        = .ok response ∧
    match findMetric collectors name with
    | some value => response.result = 200 ∧ response.body = metricBody name value
    | none => response.result = 404 ∧ response.body = metricNotFound

/-- The request for a metric is answered as any request for an unknown path. -/
theorem processRequest_metricTarget (handlers : Handlers) {name : Bytes} (hname : PathName name)
    {query : Option Bytes} {req : IncomingRequest} (hverb : req.verb = some .get)
    (htarget : req.target = metricTarget name query) :
    processRequest (setupRoutes handlers) req = .ok (notFound req) := by
  apply processRequest_notFound hverb
  rw [route, htarget, pathOf_metricTarget hname,
    lookup_setupRoutes handlers (metricPath_not_registered hname), Option.bind_none]

theorem not_answersMetric_of_notFound {collectors : List Collector} {handlers : Handlers}
    {name : Bytes} {req : IncomingRequest}
    (h : processRequest
      (setupRoutes { handlers with handleGetMetric := handleGetMetric collectors }) req
        = .ok (notFound req)) : ¬ AnswersMetric collectors handlers name req := by
  rintro ⟨response, hresponse, hanswer⟩
  obtain rfl := Except.ok.inj (h.symm.trans hresponse)
  cases hmetric : findMetric collectors name with
  | none =>
    rw [hmetric] at hanswer
    exact absurd hanswer.2 (show ascii "Not found" ≠ metricNotFound by decide)
  | some value =>
    rw [hmetric] at hanswer
    exact absurd hanswer.1 (show (404 : ℤ) ≠ 200 by decide)

/-- **No metric is answered for by its name**, whether a collector has it or not. -/
theorem not_answersMetric (collectors : List Collector) (handlers : Handlers) (name : Bytes)
    (query : Option Bytes) (req : IncomingRequest) (hname : PathName name)
    (hverb : req.verb = some .get) (htarget : req.target = metricTarget name query) :
    ¬ AnswersMetric collectors handlers name req :=
  not_answersMetric_of_notFound (processRequest_metricTarget _ hname hverb htarget)

/-- The request for the metric `cpu.usage`. -/
def cpuUsageRequest : IncomingRequest where
  version := 11
  keepAlive := true
  verb := some .get
  target := metricTarget (ascii "cpu.usage") none
  fields := []
  body := []

/-- Handlers that do nothing. -/
def idleHandlers : Handlers where
  handleGetMetrics := fun _ => {}
  handleGetMetric := fun _ => {}
  handleGetNetworkStats := fun _ => {}
  handleGetConnections := fun _ => {}
  handleGetTopHosts := fun _ => {}
  handleGetSystemInfo := fun _ => {}

/-- The collectors of a program that measures `cpu.usage`. -/
def cpuCollectors : List Collector :=
  [(∅ : Finmap fun _ : Bytes => ℚ).insert (ascii "cpu.usage") (226 / 5)]

theorem not_answersMetric_idle :
    ¬ AnswersMetric cpuCollectors idleHandlers (ascii "cpu.usage") cpuUsageRequest :=
  not_answersMetric cpuCollectors idleHandlers (ascii "cpu.usage") none cpuUsageRequest (by decide)
    rfl rfl

/-- There is a metric `cpu.usage`, and a request for it is not answered with it. -/
theorem not_answersMetric_cpuUsage :
    findMetric cpuCollectors (ascii "cpu.usage") = some (226 / 5) ∧
      ¬ AnswersMetric cpuCollectors idleHandlers (ascii "cpu.usage") cpuUsageRequest := by
  refine ⟨?_, not_answersMetric_of_notFound ?_⟩
  · rw [findMetric, cpuCollectors, List.findSome?_cons, Finmap.lookup_insert]
  · have hname : PathName (ascii "cpu.usage") := by decide
    exact processRequest_metricTarget _ hname rfl rfl

end NetSentry.RestApi
