import NetSentry.Network.Equiv.HttpDecode

/-!
# The direction of an HTTP message

`HttpParser` accepts a packet by the text it begins with and decides by its ports whether that text
is a request or a response.

* `isHttpPacket_iff`: the texts that are accepted.
* `isRequest_iff_of_parse`: the direction that is returned is the one of the ports.
* `directionFollows_iff`: it is the one of the text exactly when the two agree.
-/

namespace NetSentry.HttpParser

open Bytes Checked Search

/-- The text begins with one of the nine methods and a blank. -/
def BeginsRequest (data : Bytes) : Prop := ∃ method ∈ httpMethods, method ++ space <+: data

/-- The text begins with `HTTP/`. -/
def BeginsResponse (data : Bytes) : Prop := ascii "HTTP/" <+: data

instance (data : Bytes) : Decidable (BeginsRequest data) :=
  inferInstanceAs (Decidable (∃ method ∈ httpMethods, _))

instance (data : Bytes) : Decidable (BeginsResponse data) :=
  inferInstanceAs (Decidable (_ <+: _))

/-! ### Accepted texts -/

theorem isPrefix_take_min {pat data : Bytes} (hpat : pat.length ≤ 8) :
    pat <+: data.take (min 8 data.length) ↔ pat <+: data := by
  rw [List.prefix_take_iff]
  constructor
  · exact fun h => h.1
  · intro h
    have hlen := h.length_le
    exact ⟨h, by omega⟩

theorem find_eq_some_zero_iff {pat s : Bytes} : find pat s = some 0 ↔ pat <+: s := by
  constructor
  · intro h
    simpa using (find_some h).1
  · exact find_of_isPrefix

/-- The check for a method: the method stands first and the first blank right behind it. -/
theorem method_found_iff {method data : Bytes} (hmethod : method ∈ httpMethods) :
    (find method (data.take (min 8 data.length)) = some 0 ∧
        find space (data.take (min 8 data.length)) = some method.length)
      ↔ method ++ space <+: data := by
  obtain ⟨hspace, -, hlen⟩ := httpMethods_spec method hmethod
  have hpat : (method ++ space).length ≤ 8 := by
    rw [List.length_append, show space.length = 1 from rfl]
    omega
  rw [← isPrefix_take_min hpat, find_eq_some_zero_iff]
  set start := data.take (min 8 data.length)
  constructor
  · rintro ⟨⟨rest, hrest⟩, hblank⟩
    have hdrop := (find_some hblank).1
    rw [← hrest, List.drop_left] at hdrop
    rw [← hrest]
    exact (List.prefix_append_right_inj method).mpr hdrop
  · rintro ⟨rest, hrest⟩
    have hstart : start = method ++ 32 :: rest := by
      rw [← hrest, List.append_assoc]
      rfl
    exact ⟨hstart ▸ List.prefix_append _ _, hstart ▸ find_singleton_append rest hspace⟩

/-- **The packets taken for HTTP.** -/
theorem isHttpPacket_iff {packet : PacketInfo} :
    isHttpPacket packet = true ↔ packet.protocol = IPPROTO_TCP ∧ 16 ≤ packet.data.length ∧
      (BeginsRequest packet.data ∨ BeginsResponse packet.data) := by
  unfold isHttpPacket
  split_ifs with hprotocol hlen
  · simp [hprotocol]
  · have hshort : ¬ 16 ≤ packet.data.length := by omega
    simp [hshort]
  · have hversion : (ascii "HTTP/").length ≤ 8 := by decide
    rw [and_iff_right (not_not.mp hprotocol), and_iff_right (Nat.le_of_not_lt hlen)]
    simp only [Bool.or_eq_true, List.any_eq_true, decide_eq_true_eq, find_eq_some_zero_iff,
      isPrefix_take_min hversion]
    refine or_congr (exists_congr fun method => and_congr_right fun hmethod => ?_) Iff.rfl
    rw [← find_eq_some_zero_iff, method_found_iff hmethod]

/-- No text is of both kinds. -/
theorem not_beginsResponse_of_beginsRequest {data : Bytes} (h : BeginsRequest data) :
    ¬ BeginsResponse data := by
  obtain ⟨method, hmethod, hrequest⟩ := h
  intro hresponse
  have hclash : ∀ method ∈ httpMethods,
      ¬ method ++ space <+: ascii "HTTP/" ∧ ¬ ascii "HTTP/" <+: method ++ space := by decide
  rcases List.prefix_or_prefix_of_prefix hrequest hresponse with h | h
  · exact (hclash method hmethod).1 h
  · exact (hclash method hmethod).2 h

/-! ### The direction of the two decoders -/

theorem isRequest_of_parseHttpRequest {data : Bytes} {httpData : HttpData}
    (h : parseHttpRequest data = .ok httpData) : httpData.isRequest = true := by
  unfold parseHttpRequest at h
  simp only [substr_of_le _ (Nat.zero_le _), bind_ok] at h
  split at h
  · exact Except.ok.inj h ▸ rfl
  · split at h
    · exact Except.ok.inj h ▸ rfl
    · split at h
      · exact Except.ok.inj h ▸ rfl
      · next methodEnd hmethodEnd _ uriEnd huriEnd =>
        obtain ⟨hle, hlt⟩ := findFrom_some huriEnd
        rw [show space.length = 1 from rfl] at hlt
        rw [substr_of_le _ (by omega), substrFrom_of_le hlt, headerLoop_eq] at h
        exact Except.ok.inj h ▸ rfl

theorem isRequest_of_parseHttpResponse {data : Bytes} {httpData : HttpData}
    (h : parseHttpResponse data = .ok httpData) : httpData.isRequest = false := by
  unfold parseHttpResponse at h
  simp only [substr_of_le _ (Nat.zero_le _), bind_ok] at h
  split at h
  · exact Except.ok.inj h ▸ rfl
  · split at h
    · exact Except.ok.inj h ▸ rfl
    · next httpVersionEnd hversionEnd =>
      have hlt := find_add_length_le hversionEnd
      rw [show space.length = 1 from rfl] at hlt
      rw [substr_of_le _ hlt, headerLoop_eq] at h
      exact Except.ok.inj h ▸ rfl

/-- The source port is asked first and settles the direction. -/
theorem isRequest_iff_of_parse {packet : PacketInfo} {httpData : HttpData}
    (h : parse packet = .ok (some (.http httpData))) :
    httpData.isRequest = true ↔ ¬ IsHttpPort packet.sourcePort := by
  unfold parse at h
  split_ifs at h with hhttp hsource hdest
  · cases Except.ok.inj h
  · obtain ⟨response, hresponse⟩ := parseHttpResponse_defined packet.data
    rw [hresponse] at h
    obtain rfl : response = httpData :=
      ProtocolData.http.inj (Option.some.inj (Except.ok.inj h))
    have hsource' : IsHttpPort packet.sourcePort := hsource
    simp [isRequest_of_parseHttpResponse hresponse, hsource']
  · obtain ⟨request, hrequest⟩ := parseHttpRequest_defined packet.data
    rw [hrequest] at h
    obtain rfl : request = httpData :=
      ProtocolData.http.inj (Option.some.inj (Except.ok.inj h))
    have hsource' : ¬ IsHttpPort packet.sourcePort := hsource
    simp [isRequest_of_parseHttpRequest hrequest, hsource']
  · cases Except.ok.inj h

/-! ### The two directions -/

/-- The direction that is returned is the direction of the text. -/
def DirectionFollows (packet : PacketInfo) (httpData : HttpData) : Prop :=
  (httpData.isRequest = true ↔ BeginsRequest packet.data) ∧
    (httpData.isRequest = false ↔ BeginsResponse packet.data)

/-- A response comes from an HTTP port and a request does not. -/
def PortsFollow (packet : PacketInfo) : Prop :=
  BeginsResponse packet.data ↔ IsHttpPort packet.sourcePort

/-- What is parsed begins like a request or like a response. -/
theorem begins_of_parse {packet : PacketInfo} {httpData : HttpData}
    (h : parse packet = .ok (some (.http httpData))) :
    BeginsRequest packet.data ∨ BeginsResponse packet.data := by
  by_cases hhttp : isHttpPacket packet = true
  · exact (isHttpPacket_iff.mp hhttp).2.2
  · have hnone : parse packet = .ok none := parse_of_not_accepts fun haccepts => hhttp haccepts.1
    rw [hnone] at h
    cases Except.ok.inj h

/-- **The direction follows the message** exactly where the source port does. -/
theorem directionFollows_iff (packet : PacketInfo) (httpData : HttpData)
    (h : parse packet = .ok (some (.http httpData))) :
    DirectionFollows packet httpData ↔ PortsFollow packet := by
  have hrequest := isRequest_iff_of_parse h
  have hresponse : httpData.isRequest = false ↔ IsHttpPort packet.sourcePort := by
    rw [← Bool.not_eq_true, hrequest, not_not]
  unfold DirectionFollows PortsFollow
  constructor
  · rintro ⟨-, hfollows⟩
    rw [← hfollows, hresponse]
  · intro hports
    refine ⟨?_, hresponse.trans hports.symm⟩
    rw [hrequest, ← hports]
    constructor
    · exact (begins_of_parse h).resolve_right
    · exact not_beginsResponse_of_beginsRequest

/-- A request from port 8080, as a client may pick it, to port 80. -/
def fromHttpPort : PacketInfo :=
  { data := ascii "GET / HTTP/1.1\r\n\r\n", size := 72, sourceIp := ascii "10.0.0.1"
    destIp := ascii "10.0.0.2", sourcePort := 8080, destPort := 80, protocol := IPPROTO_TCP
    timestamp := 0 }

theorem parse_fromHttpPort :
    parse fromHttpPort = .ok (some (.http { type := .http, isRequest := false })) := by rfl

theorem directionFollows_iff_fromHttpPort :
    DirectionFollows fromHttpPort { type := .http, isRequest := false }
      ↔ PortsFollow fromHttpPort :=
  directionFollows_iff _ _ parse_fromHttpPort

/-- The request is returned as a response. -/
theorem fromHttpPort_not_directionFollows :
    ¬ ∀ (packet : PacketInfo) (httpData : HttpData), parse packet = .ok (some (.http httpData)) →
      DirectionFollows packet httpData := by
  intro h
  have hrequest : BeginsRequest fromHttpPort.data := by decide
  exact absurd ((h _ _ parse_fromHttpPort).1.mpr hrequest) (by decide)

end NetSentry.HttpParser
