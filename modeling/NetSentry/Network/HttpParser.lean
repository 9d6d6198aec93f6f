import NetSentry.Lib.Search
import NetSentry.Network.ProtocolData

/-!
# `HttpParser`

The HTTP/1 head parser: recognising a message (`isHttpPacket`), the request and status lines
(`parseHttpRequest`, `parseHttpResponse`) and the header lines.  The two functions hold the same
header loop, which is `headerLoop` here; every substring is a checked access.
-/

namespace NetSentry.HttpParser

open Bytes Checked Search

/-- `" "`. -/
def space : Bytes := [32]

/-- `":"`. -/
def colon : Bytes := [58]

/-- `"\\r\\n"`. -/
def crlf : Bytes := [13, 10]

/-- `http_methods`. -/
def httpMethods : List Bytes :=
  ["GET", "POST", "PUT", "DELETE", "HEAD", "OPTIONS", "PATCH", "CONNECT", "TRACE"].map ascii

/-- `HttpParser::isHttpPacket`. -/
def isHttpPacket (packet : PacketInfo) : Bool :=
  if packet.protocol ≠ IPPROTO_TCP then false
  else if packet.data.length < 16 then false
  else
    let start := packet.data.take (min 8 packet.data.length)
    (httpMethods.any fun method =>
      find method start = some 0 ∧ find space start = some method.length) ||
      find (ascii "HTTP/") start = some 0

/-- The loop that erases the blanks at the beginning of a value, one after the other. -/
def stripBlanks (value : Bytes) : Checked Bytes :=
  if _hblank : value.head?.any isBlank then
    match _herase : erase value 0 1 with
    | .ok value' => stripBlanks value'
    | .error fault => .error fault
  else pure value
termination_by value.length
decreasing_by
  rw [erase, if_pos (Nat.zero_le _)] at _herase
  obtain rfl := Except.ok.inj _herase
  cases value with
  | nil => cases _hblank
  | cons c value => simp

/-- The header loop of `parseHttpRequest` and `parseHttpResponse`, from `headerStart` on. -/
def headerLoop (headers : Bytes) (headerStart : ℕ) (fields : Finmap fun _ : Bytes => Bytes) :
    Checked (Finmap fun _ : Bytes => Bytes) :=
  if _hstart : headerStart < headers.length then
    let headerEnd := (findFrom crlf headers headerStart).getD headers.length
    do
      let headerLine ← substr headers headerStart (headerEnd - headerStart)
      match find colon headerLine with
      | some colonPos => do
        let key ← substr headerLine 0 colonPos
        let value ← substrFrom headerLine (colonPos + 1)
        let value ← stripBlanks value
        headerLoop headers (headerEnd + 2) (fields.insert key value)
      | none => headerLoop headers (headerEnd + 2) fields
  else pure fields
termination_by headers.length - headerStart
decreasing_by
  all_goals
    have hend : headerStart ≤ (findFrom crlf headers headerStart).getD headers.length :=
      le_getD_findFrom _hstart.le
    omega

/-- `HttpParser::parseHttpRequest`. -/
def parseHttpRequest (data : Bytes) : Checked HttpData := do
  let httpData : HttpData := { type := .http, isRequest := true }
  let endOfHeaders := (find (crlf ++ crlf) data).getD data.length
  let headers ← substr data 0 endOfHeaders
  match find crlf headers with
  | none => pure httpData
  | some lineEnd => do
    let requestLine ← substr headers 0 lineEnd
    match find space requestLine with
    | none => pure httpData
    | some methodEnd => do
      let method ← substr requestLine 0 methodEnd
      let httpData := { httpData with method := method }
      match findFrom space requestLine (methodEnd + 1) with
      | none => pure httpData
      | some uriEnd => do
        let uri ← substr requestLine (methodEnd + 1) (uriEnd - methodEnd - 1)
        let httpVersion ← substrFrom requestLine (uriEnd + 1)
        let fields ← headerLoop headers (lineEnd + 2) httpData.headers
        pure { httpData with uri := uri, httpVersion := httpVersion, headers := fields }

/-- `HttpParser::parseHttpResponse`. -/
def parseHttpResponse (data : Bytes) : Checked HttpData := do
  let httpData : HttpData := { type := .http, isRequest := false }
  let endOfHeaders := (find (crlf ++ crlf) data).getD data.length
  let headers ← substr data 0 endOfHeaders
  match find crlf headers with
  | none => pure httpData
  | some lineEnd => do
    let statusLine ← substr headers 0 lineEnd
    match find space statusLine with
    | none => pure httpData
    | some httpVersionEnd => do
      let httpVersion ← substr statusLine 0 httpVersionEnd
      let statusCodeEnd :=
        (findFrom space statusLine (httpVersionEnd + 1)).getD statusLine.length
      let statusCodeStr ←
        substr statusLine (httpVersionEnd + 1) (statusCodeEnd - httpVersionEnd - 1)
      let statusCode := (stoi statusCodeStr).getD 0
      let fields ← headerLoop headers (lineEnd + 2) httpData.headers
      pure { httpData with httpVersion := httpVersion, statusCode := statusCode, headers := fields }

/-- `HttpParser::parse`. -/
def parse (packet : PacketInfo) : Checked (Option ProtocolData) :=
  if !isHttpPacket packet then pure none
  else if packet.sourcePort = 80 ∨ packet.sourcePort = 8080 then do
    let httpData ← parseHttpResponse packet.data
    pure (some (.http httpData))
  else if packet.destPort = 80 ∨ packet.destPort = 8080 then do
    let httpData ← parseHttpRequest packet.data
    pure (some (.http httpData))
  else pure none

end NetSentry.HttpParser
