import NetSentry.Network.Equiv.HttpParser

/-!
# Decoding HTTP heads

`parse_head_iff`: on a packet that begins with a well-formed request or response head,
`HttpParser.parse` returns what the head says exactly when the head has at least one header line.
A head without header lines ends with its first line, and the first line is then searched in vain
for a line end.

* `parseHttpRequest_encode`, `parseHttpResponse_encode`: heads with header lines, read back.
* `parseHttpRequest_encode_nil`, `parseHttpResponse_encode_nil`: heads without one, read as nothing.
* `isHttpPacket_of_method`, `isHttpPacket_of_version`: what begins like a head is taken for one.
-/

namespace NetSentry.HttpParser

open Bytes Checked Search

/-! ### Requests -/

theorem httpMethods_spec :
    ∀ method ∈ httpMethods, 32 ∉ method ∧ 13 ∉ method ∧ method.length ≤ 7 := by decide

theorem RequestHead.requestLine_free (head : RequestHead) : ¬ crlf <:+: head.requestLine := by
  have hmethod := (httpMethods_spec head.method head.method_mem).2.1
  have hversion : ¬ crlf <:+: 32 :: head.version :=
    not_infix_append (l := [32]) (by decide) head.version_free (.inr (by decide))
  have huri : ¬ crlf <:+: 32 :: (head.uri ++ 32 :: head.version) :=
    not_infix_append (l := [32]) (by decide)
      (not_infix_append head.uri_free hversion (.inl (by simp))) (.inr (by decide))
  exact not_infix_append (crlf_not_infix_of_not_mem hmethod) huri (.inl (by simp))

theorem parseHttpRequest_encode_nil (head : RequestHead) (hfields : head.fields = [])
    (body : Bytes) :
    parseHttpRequest (head.encode ++ body) = .ok { type := .http, isRequest := true } := by
  have hnone : find crlf head.requestLine = none :=
    find_eq_none_iff.mpr (RequestHead.requestLine_free head)
  unfold parseHttpRequest RequestHead.encode
  simp only [substr_encodeHead (RequestHead.requestLine_free head), bind_ok]
  rw [hfields, List.map_nil, List.intercalate_singleton, hnone]
  rfl

theorem parseHttpRequest_encode (head : RequestHead) (hfields : head.fields ≠ []) (body : Bytes) :
    parseHttpRequest (head.encode ++ body) = .ok head.data := by
  obtain ⟨line, lines, hcons⟩ := List.exists_cons_of_ne_nil hfields
  have hmethod := (httpMethods_spec head.method head.method_mem).1
  have hfirst := RequestHead.requestLine_free head
  have hline : head.requestLine = head.method ++ 32 :: (head.uri ++ 32 :: head.version) := rfl
  have hdrop : head.requestLine.drop (head.method.length + 1) = head.uri ++ 32 :: head.version := by
    rw [hline, ← List.drop_drop, List.drop_left]
    rfl
  have hlen : head.requestLine.length = head.method.length + 1 + (head.uri.length + 1)
      + head.version.length := by
    rw [hline]
    simp only [List.length_append, List.length_cons]
    omega
  have hmethodEnd : find space head.requestLine = some head.method.length :=
    find_singleton_append _ hmethod
  have huriEnd : findFrom space head.requestLine (head.method.length + 1)
      = some (head.uri.length + (head.method.length + 1)) := by
    have hfind : find space (head.uri ++ 32 :: head.version) = some head.uri.length :=
      find_singleton_append _ head.space_not_mem_uri
    rw [findFrom_of_le (by omega), hdrop, hfind]
    rfl
  unfold parseHttpRequest RequestHead.encode
  -- the head, its first line, and in it the two blanks
  simp only [substr_encodeHead hfirst, bind_ok]
  rw [hcons, find_crlf_intercalate hfirst]
  simp only
  rw [substr_firstLine]
  simp only [bind_ok]
  rw [hmethodEnd]
  simp only
  rw [substr_of_le _ (Nat.zero_le _)]
  simp only [bind_ok]
  rw [huriEnd]
  simp only
  rw [substr_of_le _ (by omega), substrFrom_of_le (by omega), headerLoop_encode]
  have huri : (head.requestLine.drop (head.method.length + 1)).take
      (head.uri.length + (head.method.length + 1) - head.method.length - 1) = head.uri := by
    rw [hdrop, show head.uri.length + (head.method.length + 1) - head.method.length - 1
      = head.uri.length by omega, List.take_left]
  have hversion : head.requestLine.drop (head.uri.length + (head.method.length + 1) + 1)
      = head.version := by
    rw [show head.uri.length + (head.method.length + 1) + 1
      = head.method.length + 1 + (head.uri.length + 1) by omega, ← List.drop_drop, hdrop,
      ← List.drop_drop, List.drop_left]
    rfl
  have hmethodText : (head.requestLine.drop 0).take head.method.length = head.method := by
    rw [List.drop_zero, hline, List.take_left]
  rw [huri, hversion, hmethodText]
  simp only [bind_ok, RequestHead.data, hcons]
  rfl

/-! ### Responses -/

theorem cr_not_mem_digits {ds : Bytes} (hds : ∀ c ∈ ds, isDigit c = true) : 13 ∉ ds := by
  intro h
  exact absurd (hds 13 h) (by decide)

theorem space_not_mem_digits {ds : Bytes} (hds : ∀ c ∈ ds, isDigit c = true) : 32 ∉ ds := by
  intro h
  exact absurd (hds 32 h) (by decide)

theorem ResponseHead.cr_not_mem_statusText (head : ResponseHead) : 13 ∉ head.statusText := by
  have hdigits := cr_not_mem_digits head.digits_digit
  rw [ResponseHead.statusText]
  split_ifs with hneg
  · simp [hdigits]
  · exact hdigits

theorem ResponseHead.space_not_mem_statusText (head : ResponseHead) : 32 ∉ head.statusText := by
  have hdigits := space_not_mem_digits head.digits_digit
  rw [ResponseHead.statusText]
  split_ifs with hneg
  · simp [hdigits]
  · exact hdigits

/-- The status code is read back from its text. -/
theorem ResponseHead.stoi_statusText (head : ResponseHead) :
    stoi head.statusText = some head.statusCode := by
  have hrange := head.digits_range
  rw [stoi, ResponseHead.statusText, ResponseHead.statusCode]
  cases hneg : head.negative with
  | true =>
    rw [hneg, Bool.toNat_true] at hrange
    rw [if_pos rfl, if_pos rfl, strtol_neg_digits head.digits_ne_nil head.digits_digit,
      Option.filter_some_pos]
    simp only [decide_eq_true_eq]
    omega
  | false =>
    rw [hneg, Bool.toNat_false] at hrange
    have hread := strtol_digits [] head.digits_ne_nil head.digits_digit (by simp)
    rw [List.append_nil] at hread
    rw [if_neg Bool.false_ne_true, if_neg Bool.false_ne_true, hread, Option.filter_some_pos]
    simp only [decide_eq_true_eq]
    omega

theorem ResponseHead.statusLine_free (head : ResponseHead) : ¬ crlf <:+: head.statusLine := by
  have hreason : ¬ crlf <:+: head.reason.elim [] fun text => 32 :: text := by
    cases hcase : head.reason with
    | none => exact crlf_not_infix_of_not_mem (by simp)
    | some text =>
      exact not_infix_append (l := [32]) (by decide) (head.reason_free text (by rw [hcase]; rfl))
        (.inr (by decide))
  have hlast : head.statusText.getLast? ≠ some 13 := by
    intro h
    exact ResponseHead.cr_not_mem_statusText head (List.mem_of_getLast? h)
  have hcode : ¬ crlf <:+: head.statusText ++ head.reason.elim [] fun text => 32 :: text :=
    not_infix_append (crlf_not_infix_of_not_mem (ResponseHead.cr_not_mem_statusText head)) hreason
      (.inr hlast)
  have hrest : ¬ crlf <:+: 32 :: (head.statusText ++ head.reason.elim [] fun text => 32 :: text) :=
    not_infix_append (l := [32]) (by decide) hcode (.inr (by decide))
  exact not_infix_append head.version_free hrest (.inl (by simp))

/-- The status code ends at the blank before the reason phrase, or with the line. -/
theorem ResponseHead.find_space_statusText (head : ResponseHead) (n : ℕ) :
    ((find space (head.statusText ++ head.reason.elim [] fun text => 32 :: text)).map
        (· + n)).getD
          (n + (head.statusText ++ head.reason.elim [] fun text => 32 :: text).length)
      = head.statusText.length + n := by
  have hspace := ResponseHead.space_not_mem_statusText head
  cases head.reason with
  | none =>
    have hnone : find space (head.statusText ++ []) = none := by
      rw [List.append_nil]
      exact find_singleton_eq_none hspace
    rw [Option.elim_none, hnone, Option.map_none, Option.getD_none, List.append_nil, Nat.add_comm]
  | some text =>
    have hfind : find space (head.statusText ++ 32 :: text) = some head.statusText.length :=
      find_singleton_append _ hspace
    rw [Option.elim_some, hfind, Option.map_some, Option.getD_some]

theorem parseHttpResponse_encode_nil (head : ResponseHead) (hfields : head.fields = [])
    (body : Bytes) :
    parseHttpResponse (head.encode ++ body) = .ok { type := .http, isRequest := false } := by
  have hfirst := ResponseHead.statusLine_free head
  have hnone : find crlf head.statusLine = none := find_eq_none_iff.mpr hfirst
  unfold parseHttpResponse ResponseHead.encode
  simp only [substr_encodeHead hfirst, bind_ok]
  rw [hfields, List.map_nil, List.intercalate_singleton, hnone]
  rfl

theorem parseHttpResponse_encode (head : ResponseHead) (hfields : head.fields ≠ [])
    (body : Bytes) : parseHttpResponse (head.encode ++ body) = .ok head.data := by
  obtain ⟨line, lines, hcons⟩ := List.exists_cons_of_ne_nil hfields
  have hfirst := ResponseHead.statusLine_free head
  set rest := head.statusText ++ head.reason.elim [] fun text => 32 :: text with hrest
  have hline : head.statusLine = head.version ++ 32 :: rest := rfl
  have hdrop : head.statusLine.drop (head.version.length + 1) = rest := by
    rw [hline, ← List.drop_drop, List.drop_left]
    rfl
  have hlen : head.statusLine.length = head.version.length + 1 + rest.length := by
    rw [hline, List.length_append, List.length_cons]
    omega
  have hversionEnd : find space head.statusLine = some head.version.length :=
    find_singleton_append _ head.space_not_mem_version
  have hcodeEnd : (findFrom space head.statusLine (head.version.length + 1)).getD
      head.statusLine.length = head.statusText.length + (head.version.length + 1) := by
    rw [findFrom_of_le (by omega), hdrop, hlen]
    exact ResponseHead.find_space_statusText head _
  have hcode : (head.statusLine.drop (head.version.length + 1)).take
      (head.statusText.length + (head.version.length + 1) - head.version.length - 1)
        = head.statusText := by
    rw [hdrop, show head.statusText.length + (head.version.length + 1) - head.version.length - 1
      = head.statusText.length by omega, hrest, List.take_left]
  have hversion : (head.statusLine.drop 0).take head.version.length = head.version := by
    rw [List.drop_zero, hline, List.take_left]
  unfold parseHttpResponse ResponseHead.encode
  simp only [substr_encodeHead hfirst, bind_ok]
  rw [hcons, find_crlf_intercalate hfirst]
  simp only
  rw [substr_firstLine]
  simp only [bind_ok]
  rw [hversionEnd]
  simp only
  rw [substr_of_le _ (Nat.zero_le _)]
  simp only [bind_ok, hcodeEnd]
  rw [substr_of_le _ (by omega), headerLoop_encode, hcode, hversion]
  simp only [bind_ok, ResponseHead.stoi_statusText, Option.getD_some, ResponseHead.data, hcons]
  rfl

/-! ### Recognising a head -/

theorem isHttpPacket_of_method {packet : PacketInfo} {method rest : Bytes}
    (hprotocol : packet.protocol = IPPROTO_TCP) (hlen : 16 ≤ packet.data.length)
    (hmethod : method ∈ httpMethods) (hdata : packet.data = method ++ 32 :: rest) :
    isHttpPacket packet = true := by
  obtain ⟨hspace, _, hle⟩ := httpMethods_spec method hmethod
  -- the longest method leaves room for the blank in the first eight bytes
  have hstart : packet.data.take (min 8 packet.data.length)
      = method ++ 32 :: rest.take (8 - method.length - 1) := by
    rw [show min 8 packet.data.length = 8 by omega, hdata, List.take_append,
      List.take_of_length_le (by omega),
      show 8 - method.length = 8 - method.length - 1 + 1 by omega,
      List.take_succ_cons, Nat.add_sub_cancel]
  have hfound : find method (method ++ 32 :: rest.take (8 - method.length - 1)) = some 0 :=
    find_of_isPrefix (List.prefix_append _ _)
  have hblank : find space (method ++ 32 :: rest.take (8 - method.length - 1))
      = some method.length := find_singleton_append _ hspace
  unfold isHttpPacket
  rw [if_neg (not_not_intro hprotocol), if_neg (by omega)]
  simp only [hstart, Bool.or_eq_true, List.any_eq_true]
  exact .inl ⟨method, hmethod, by simp [hfound, hblank]⟩

theorem isHttpPacket_of_version {packet : PacketInfo} (hprotocol : packet.protocol = IPPROTO_TCP)
    (hlen : 16 ≤ packet.data.length) (hversion : ascii "HTTP/" <+: packet.data) :
    isHttpPacket packet = true := by
  have hprefix : ascii "HTTP/" <+: packet.data.take (min 8 packet.data.length) := by
    rw [List.prefix_take_iff]
    exact ⟨hversion, by rw [show (ascii "HTTP/").length = 5 from rfl]; omega⟩
  unfold isHttpPacket
  rw [if_neg (not_not_intro hprotocol), if_neg (by omega)]
  simp only [find_of_isPrefix hprefix, Bool.or_eq_true, decide_eq_true_eq]
  exact .inr trivial

/-! ### Whole packets -/

theorem parse_request {packet : PacketInfo} (head : RequestHead) (body : Bytes)
    (hprotocol : packet.protocol = IPPROTO_TCP) (hdest : IsHttpPort packet.destPort)
    (hsource : ¬ IsHttpPort packet.sourcePort) (hdata : packet.data = head.encode ++ body)
    (hlen : 16 ≤ packet.data.length) :
    parse packet
      = .ok (some (.http (if head.fields = [] then { type := .http, isRequest := true }
          else head.data))) := by
  have hhttp : isHttpPacket packet = true := by
    have hmethod : packet.data = head.method ++ 32 :: (head.uri ++ 32 :: head.version ++ crlf
        ++ head.fields.flatMap (fun line => line.encode ++ crlf) ++ crlf ++ body) := by
      rw [hdata, RequestHead.encode, encodeHead, RequestHead.requestLine]
      simp
    exact isHttpPacket_of_method hprotocol hlen head.method_mem hmethod
  unfold IsHttpPort at hdest hsource
  unfold parse
  rw [hhttp, if_neg (by decide), if_neg hsource, if_pos hdest, hdata]
  split_ifs with hfields
  · rw [parseHttpRequest_encode_nil head hfields]
    rfl
  · rw [parseHttpRequest_encode head hfields]
    rfl

theorem parse_response {packet : PacketInfo} (head : ResponseHead) (body : Bytes)
    (hprotocol : packet.protocol = IPPROTO_TCP) (hsource : IsHttpPort packet.sourcePort)
    (hdata : packet.data = head.encode ++ body) (hlen : 16 ≤ packet.data.length) :
    parse packet
      = .ok (some (.http (if head.fields = [] then { type := .http, isRequest := false }
          else head.data))) := by
  have hhttp : isHttpPacket packet = true := by
    refine isHttpPacket_of_version hprotocol hlen (head.isPrefix_version.trans ?_)
    rw [hdata, ResponseHead.encode, encodeHead, ResponseHead.statusLine]
    simp only [List.append_assoc]
    exact List.prefix_append _ _
  unfold IsHttpPort at hsource
  unfold parse
  rw [hhttp, if_neg (by decide), if_pos hsource, hdata]
  split_ifs with hfields
  · rw [parseHttpResponse_encode_nil head hfields]
    rfl
  · rw [parseHttpResponse_encode head hfields]
    rfl

/-- **The round trip of HTTP heads**: a packet that begins with a request or a response head is read
as what the head says exactly when the head has a header line. -/
theorem parse_head_iff {packet : PacketInfo} {body : Bytes}
    (hprotocol : packet.protocol = IPPROTO_TCP) (hlen : 16 ≤ packet.data.length) :
    (∀ head : RequestHead, packet.data = head.encode ++ body → IsHttpPort packet.destPort →
      ¬ IsHttpPort packet.sourcePort →
        (parse packet = .ok (some (.http head.data)) ↔ head.fields ≠ [])) ∧
    (∀ head : ResponseHead, packet.data = head.encode ++ body → IsHttpPort packet.sourcePort →
        (parse packet = .ok (some (.http head.data)) ↔ head.fields ≠ [])) := by
  constructor
  · intro head hdata hdest hsource
    rw [parse_request head body hprotocol hdest hsource hdata hlen]
    split_ifs with hfields
    · -- what is read has no method
      refine iff_of_false (fun h => ?_) (not_not_intro hfields)
      have hread : ({ type := .http, isRequest := true } : HttpData) = head.data := by
        simpa using h
      have hmethod : head.method = [] := (congrArg HttpData.method hread).symm
      exact absurd (hmethod ▸ head.method_mem) (by decide)
    · exact iff_of_true rfl hfields
  · intro head hdata hsource
    rw [parse_response head body hprotocol hsource hdata hlen]
    split_ifs with hfields
    · -- what is read has no version
      refine iff_of_false (fun h => ?_) (not_not_intro hfields)
      have hread : ({ type := .http, isRequest := false } : HttpData) = head.data := by
        simpa using h
      have hversion : head.version = [] := (congrArg HttpData.httpVersion hread).symm
      exact absurd (hversion ▸ head.isPrefix_version) (by decide)
    · exact iff_of_true rfl hfields

/-- `GET / HTTP/1.1` with the given header lines. -/
def getRoot (fields : List HeaderLine) : RequestHead where
  method := ascii "GET"
  uri := ascii "/"
  version := ascii "HTTP/1.1"
  fields := fields
  method_mem := by decide
  space_not_mem_uri := by decide
  uri_free := by decide
  version_free := by decide

/-- `HTTP/1.1 200 OK` with the given header lines. -/
def okResponse (fields : List HeaderLine) : ResponseHead where
  version := ascii "HTTP/1.1"
  negative := false
  digits := ascii "200"
  reason := some (ascii "OK")
  fields := fields
  isPrefix_version := by decide
  space_not_mem_version := by decide
  version_free := by decide
  digits_ne_nil := by decide
  digits_digit := by decide +kernel
  digits_range := by decide
  reason_free := by decide

/-- `Host: a`. -/
def hostLine : HeaderLine where
  key := ascii "Host"
  ows := [32]
  value := ascii "a"
  colon_not_mem_key := by decide
  key_free := by decide
  ows_blank := by decide +kernel
  value_free := by decide
  value_head := by decide +kernel

/-- A TCP packet between the two ports. -/
def tcpPacket (sourcePort destPort : UInt16) (data : Bytes) : PacketInfo where
  data := data
  size := data.length.toUInt64
  sourceIp := ascii "10.0.0.1"
  destIp := ascii "10.0.0.2"
  sourcePort := sourcePort
  destPort := destPort
  protocol := IPPROTO_TCP
  timestamp := 0

theorem parse_hostLine :
    parse (tcpPacket 40000 80 ((getRoot [hostLine]).encode ++ []))
        = .ok (some (.http (getRoot [hostLine]).data)) ∧
      parse (tcpPacket 8080 40000 ((okResponse [hostLine]).encode ++ ascii "a"))
        = .ok (some (.http (okResponse [hostLine]).data)) := by
  refine ⟨?_, ?_⟩
  · exact ((parse_head_iff rfl (by decide)).1 (getRoot [hostLine]) rfl (.inl rfl)
      (by decide)).mpr (List.cons_ne_nil _ _)
  · exact ((parse_head_iff rfl (by decide)).2 (okResponse [hostLine]) rfl (.inr rfl)).mpr
      (List.cons_ne_nil _ _)

/-- A request without header lines is not read back. -/
theorem not_forall_parse_head :
    ¬ ∀ (packet : PacketInfo) (body : Bytes), packet.protocol = IPPROTO_TCP →
      16 ≤ packet.data.length →
        (∀ head : RequestHead, packet.data = head.encode ++ body → IsHttpPort packet.destPort →
          ¬ IsHttpPort packet.sourcePort → parse packet = .ok (some (.http head.data))) ∧
        (∀ head : ResponseHead, packet.data = head.encode ++ body →
          IsHttpPort packet.sourcePort → parse packet = .ok (some (.http head.data))) := by
  intro h
  have hread := (h (tcpPacket 40000 80 ((getRoot []).encode ++ [])) [] rfl (by decide)).1
    (getRoot []) rfl (.inl rfl) (by decide)
  rw [parse_request (getRoot []) [] rfl (.inl rfl) (by decide) rfl
    (by decide)] at hread
  exact absurd hread (by decide)

end NetSentry.HttpParser
