import NetSentry.Network.HttpParser

/-!
# HTTP message heads

The text of HTTP/1 request and response heads: a first line, any list of header lines and an empty
line.  A value of `RequestHead` or `ResponseHead` is a well-formed head, and `encode` writes it out.
-/

namespace NetSentry

open Bytes Search HttpParser

/-- A header line `key:` OWS value. -/
structure HeaderLine where
  key : Bytes
  ows : Bytes
  value : Bytes
  colon_not_mem_key : 58 ∉ key
  key_free : ¬ crlf <:+: key
  ows_blank : ∀ c ∈ ows, isBlank c = true
  value_free : ¬ crlf <:+: value
  value_head : ∀ c ∈ value.head?, isBlank c = false

namespace HeaderLine

/-- The line without its end. -/
def encode (line : HeaderLine) : Bytes := line.key ++ 58 :: (line.ows ++ line.value)

end HeaderLine

/-- The header map in which the last value of each key wins. -/
def fieldMap (fields : List HeaderLine) : Finmap fun _ : Bytes => Bytes :=
  fields.foldl (fun m line => m.insert line.key line.value) ∅

/-- The lines of a head, each with its end, and the empty line. -/
def encodeHead (firstLine : Bytes) (fields : List HeaderLine) : Bytes :=
  firstLine ++ crlf ++ fields.flatMap (fun line => line.encode ++ crlf) ++ crlf

/-- A request head. -/
structure RequestHead where
  method : Bytes
  uri : Bytes
  version : Bytes
  fields : List HeaderLine
  method_mem : method ∈ httpMethods
  space_not_mem_uri : 32 ∉ uri
  uri_free : ¬ crlf <:+: uri
  version_free : ¬ crlf <:+: version

namespace RequestHead

def requestLine (head : RequestHead) : Bytes :=
  head.method ++ 32 :: (head.uri ++ 32 :: head.version)

def encode (head : RequestHead) : Bytes := encodeHead head.requestLine head.fields

/-- What the head says. -/
def data (head : RequestHead) : HttpData where
  type := .http
  method := head.method
  uri := head.uri
  httpVersion := head.version
  headers := fieldMap head.fields
  isRequest := true

end RequestHead

/-- A response head.  The status code is a decimal numeral in the range of `int`. -/
structure ResponseHead where
  version : Bytes
  negative : Bool
  digits : Bytes
  reason : Option Bytes
  fields : List HeaderLine
  isPrefix_version : ascii "HTTP/" <+: version
  space_not_mem_version : 32 ∉ version
  version_free : ¬ crlf <:+: version
  digits_ne_nil : digits ≠ []
  digits_digit : ∀ c ∈ digits, isDigit c = true
  digits_range : digitsValue digits < 2 ^ 31 + negative.toNat
  reason_free : ∀ text ∈ reason, ¬ crlf <:+: text

namespace ResponseHead

def statusCode (head : ResponseHead) : ℤ :=
  if head.negative then -(digitsValue head.digits : ℤ) else digitsValue head.digits

def statusText (head : ResponseHead) : Bytes :=
  if head.negative then 45 :: head.digits else head.digits

def statusLine (head : ResponseHead) : Bytes :=
  head.version ++ 32 :: (head.statusText ++ head.reason.elim [] fun text => 32 :: text)

def encode (head : ResponseHead) : Bytes := encodeHead head.statusLine head.fields

/-- What the head says. -/
def data (head : ResponseHead) : HttpData where
  type := .http
  httpVersion := head.version
  headers := fieldMap head.fields
  isRequest := false
  statusCode := head.statusCode

end ResponseHead

end NetSentry
