import Mathlib.Data.List.DropRight
import Mathlib.Data.Rat.Floor
import NetSentry.Lib.Checked
import NetSentry.Lib.Search
import NetSentry.Network.ProtocolData

/-!
# `RestApi`

The request side of the API server: `processRequest` splits the target of a request, looks the path
up in the routes and lets the handler that it finds make the response.  `setupRoutes` registers the
routes, and `handleGetMetric` answers for one metric.  A `double` is its exact value, or its sign
and its exact magnitude where zero has a sign.
-/

namespace NetSentry

open Bytes Checked Search

/-- `HttpMethod`. -/
inductive HttpMethod
  | get
  | post
  | put
  | delete
  | options
deriving DecidableEq

/-- `HttpRequest`. -/
structure HttpRequest where
  method : HttpMethod
  path : Bytes
  headers : Finmap fun _ : Bytes => Bytes
  queryParams : Finmap fun _ : Bytes => Bytes
  body : Bytes

/-- `HttpResponse`. -/
structure HttpResponse where
  statusCode : ℤ := 200
  headers : Finmap fun _ : Bytes => Bytes := ∅
  body : Bytes := []

/-- `RouteHandler`. -/
abbrev RouteHandler := HttpRequest → HttpResponse

/-- The verb of a request as the server library reads it: one of those of `HttpMethod`, or another
one. -/
abbrev Verb := Option HttpMethod

/-- A request as the server library delivers it. -/
structure IncomingRequest where
  version : ℕ
  keepAlive : Bool
  verb : Verb
  target : Bytes
  fields : List (Bytes × Bytes)
  body : Bytes

/-- A response as it is handed to the server library. -/
structure OutgoingResponse where
  version : ℕ
  keepAlive : Bool
  result : ℤ
  fields : Finmap fun _ : Bytes => Bytes
  body : Bytes
deriving DecidableEq

/-- A finite `double`. -/
structure FiniteDouble where
  negative : Bool
  magnitude : ℚ
  nonneg : 0 ≤ magnitude

namespace RestApi

/-- `"Content-Type"`. -/
def contentType : Bytes := ascii "Content-Type"

/-! ### The query -/

/-- What a piece of the query adds to the parameters. -/
def addParam (params : Finmap fun _ : Bytes => Bytes) (param : Bytes) :
    Checked (Finmap fun _ : Bytes => Bytes) :=
  match find [61] param with
  | some eqPos => do
    let key ← substr param 0 eqPos
    let value ← substrFrom param (eqPos + 1)
    pure (params.insert key value)
  | none => pure params

/-- The loop of `parseQueryParams`, whose `end` is `none` for `npos`.  While pieces are left, `end`
is not before `start`. -/
def paramsLoop (query : Bytes) (params : Finmap fun _ : Bytes => Bytes) (start : ℕ)
    (stop : Option ℕ) (hstop : start < query.length → ∀ e ∈ stop, start ≤ e) :
    Checked (Finmap fun _ : Bytes => Bytes) :=
  if _hstart : start < query.length then
    match stop with
    | some e => do
      let param ← substr query start (e - start)
      let params ← addParam params param
      paramsLoop query params (e + 1) (some ((findFrom [38] query (e + 1)).getD query.length))
        (fun h e' he' => Option.mem_some_iff.mp he' ▸ le_getD_findFrom h.le)
    | none => do
      let param ← substrFrom query start
      addParam params param
  else pure params
termination_by query.length - start
decreasing_by
  have := hstop _hstart e rfl
  omega

/-- `ServerImpl::Session::parseQueryParams`. -/
def parseQueryParams (query : Bytes) (params : Finmap fun _ : Bytes => Bytes) :
    Checked (Finmap fun _ : Bytes => Bytes) :=
  paramsLoop query params 0 (find [38] query) (fun _ e _ => Nat.zero_le e)

/-! ### Routes -/

/-- `routes_`. -/
abbrev Routes := Finmap fun _ : Bytes => Finmap fun _ : HttpMethod => RouteHandler

/-- `ServerImpl::addRoute`. -/
def addRoute (routes : Routes) (path : Bytes) (method : HttpMethod) (handler : RouteHandler) :
    Routes :=
  routes.insert path (((routes.lookup path).getD ∅).insert method handler)

/-- The handlers of `RestApi`. -/
structure Handlers where
  handleGetMetrics : RouteHandler
  handleGetMetric : RouteHandler
  handleGetNetworkStats : RouteHandler
  handleGetConnections : RouteHandler
  handleGetTopHosts : RouteHandler
  handleGetSystemInfo : RouteHandler

/-- `RestApi::setupRoutes`. -/
def setupRoutes (handlers : Handlers) : Routes :=
  let routes := addRoute ∅ (ascii "/api/v1/metrics") .get handlers.handleGetMetrics
  let routes := addRoute routes (ascii "/api/v1/metrics/\x7bname\x7d") .get handlers.handleGetMetric
  let routes := addRoute routes (ascii "/api/v1/network/stats") .get handlers.handleGetNetworkStats
  let routes :=
    addRoute routes (ascii "/api/v1/network/connections") .get handlers.handleGetConnections
  let routes := addRoute routes (ascii "/api/v1/network/hosts") .get handlers.handleGetTopHosts
  addRoute routes (ascii "/api/v1/system/info") .get handlers.handleGetSystemInfo

/-- `ServerImpl::Session::processRequest`, up to the writing of the response. -/
def processRequest (routes : Routes) (req : IncomingRequest) : Checked OutgoingResponse :=
  match req.verb with
  | none =>
    pure {
      version := req.version
      keepAlive := req.keepAlive
      result := 405
      fields := (∅ : Finmap fun _ : Bytes => Bytes).insert contentType (ascii "text/plain")
      body := ascii "Method not allowed" }
  | some method => do
    let (path, query) ← match find [63] req.target with
      | some pos => do
        let path ← substr req.target 0 pos
        let query ← substrFrom req.target (pos + 1)
        pure (path, query)
      | none => pure (req.target, [])
    let queryParams ← if query ≠ [] then parseQueryParams query ∅ else pure ∅
    let request : HttpRequest := {
      method := method
      path := path
      body := req.body
      headers := req.fields.foldl (fun headers field => headers.insert field.1 field.2) ∅
      queryParams := queryParams }
    match (routes.lookup path).bind fun methods => methods.lookup method with
    | some handler =>
      let response := handler request
      pure {
        version := req.version
        keepAlive := req.keepAlive
        result := response.statusCode
        fields :=
          if contentType ∈ response.headers then response.headers
          else response.headers.insert contentType (ascii "application/json")
        body := response.body }
    | none =>
      pure {
        version := req.version
        keepAlive := req.keepAlive
        result := 404
        fields := (∅ : Finmap fun _ : Bytes => Bytes).insert contentType (ascii "text/plain")
        body := ascii "Not found" }

/-! ### Metrics -/

/-- `metrics_` of a collector: the current values of its metrics by their names. -/
abbrev Collector := Finmap fun _ : Bytes => ℚ

/-- The number of millionths nearest to a non-negative number, the even one of two. -/
def roundMillionths (v : ℚ) : ℕ :=
  let whole := ⌊v * 10 ^ 6⌋₊
  let rest := v * 10 ^ 6 - whole
  if rest < 1 / 2 ∨ (rest = 1 / 2 ∧ 2 ∣ whole) then whole else whole + 1

/-- `std::to_string` of a finite `double`: six digits after the point. -/
def toStringSigned (value : FiniteDouble) : Bytes :=
  let millionths := roundMillionths value.magnitude
  let digits := decimal (millionths % 10 ^ 6)
  (if value.negative then [45] else []) ++ decimal (millionths / 10 ^ 6) ++ [46] ++
    List.replicate (6 - digits.length) 48 ++ digits

/-- `std::to_string` of a `double` that is not negative zero. -/
def toStringDouble (v : ℚ) : Bytes := toStringSigned ⟨v < 0, |v|, abs_nonneg v⟩

/-- The body that `handleGetMetric` makes of a metric. -/
def metricBody (name : Bytes) (value : ℚ) : Bytes :=
  ascii "\x7b\n" ++ ascii "  \"name\": \"" ++ name ++ ascii "\",\n" ++ ascii "  \"value\": " ++
    toStringDouble value ++ ascii "\n" ++ ascii "\x7d"

/-- The body of the error of `handleGetMetric`. -/
def metricNotFound : Bytes := ascii "\x7b\n  \"error\": \"Metric not found\"\n\x7d"

/-- The current value of a metric of the first collector that has it. -/
def findMetric (collectors : List Collector) (name : Bytes) : Option ℚ :=
  collectors.findSome? fun collector => collector.lookup name

/-- `RestApi::handleGetMetric`. -/
def handleGetMetric (collectors : List Collector) (request : HttpRequest) : HttpResponse :=
  let headers := (∅ : Finmap fun _ : Bytes => Bytes).insert contentType (ascii "application/json")
  let metricName := request.path.rtakeWhile (· ≠ 47)
  match findMetric collectors metricName with
  | some value => { headers := headers, body := metricBody metricName value }
  | none => { statusCode := 404, headers := headers, body := metricNotFound }

end RestApi

end NetSentry
