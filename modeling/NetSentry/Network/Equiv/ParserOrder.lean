import NetSentry.Lib.OrderedChoice
import NetSentry.Network.Equiv.HttpDirection
import NetSentry.Network.Equiv.PacketAnalyzer
import NetSentry.Network.Equiv.ProtocolDetection

/-!
# The order of the parsers

`createAllParsers` makes the parsers in one order.  It is of no importance for a packet exactly when
the packet is not one of port 53 that begins like an HTTP message or a TLS record
(`detect_order_iff`); and the connections of an analyzer that has processed no such packet are the
same for every order (`connections_order`).

* `not_tlsAccepts_of_httpAccepts`: no packet passes for both HTTP and TLS.
-/

namespace NetSentry.PacketAnalyzer

open Bytes Checked ProtocolParserFactory OrderedChoice

variable {packet : PacketInfo}

/-- The parser of DNS takes the packet for its own, and so does another one. -/
def Ambiguous (packet : PacketInfo) : Prop :=
  DnsParser.isDnsPacket packet = true ∧ (HttpParser.Accepts packet ∨ TlsParser.Accepts packet)

instance (packet : PacketInfo) : Decidable (Ambiguous packet) :=
  inferInstanceAs (Decidable (_ ∧ (_ ∨ _)))

/-! ### Who answers -/

/-- An HTTP message begins with a letter. -/
theorem head_of_begins {data : Bytes}
    (h : HttpParser.BeginsRequest data ∨ HttpParser.BeginsResponse data) :
    65 ≤ data.getD 0 0 := by
  have hstart : ∃ start : Bytes, start <+: data ∧ start ≠ [] ∧ 65 ≤ start.getD 0 0 := by
    rcases h with ⟨method, hmethod, hprefix⟩ | hprefix
    · have hmethods : ∀ method ∈ HttpParser.httpMethods,
          65 ≤ (method ++ HttpParser.space).getD 0 0 := by decide
      exact ⟨_, hprefix, by simp [HttpParser.space], hmethods method hmethod⟩
    · exact ⟨_, hprefix, by decide, by decide⟩
  obtain ⟨start, ⟨rest, rfl⟩, hne, hletter⟩ := hstart
  rwa [List.getD_append _ _ _ _ (List.length_pos_iff.mpr hne)]

/-- **HTTP and TLS are told apart** by the first byte. -/
theorem not_tlsAccepts_of_httpAccepts (h : HttpParser.Accepts packet) :
    ¬ TlsParser.Accepts packet := by
  obtain ⟨-, -, hbegins⟩ := HttpParser.isHttpPacket_iff.mp h.1
  intro htls
  have hletter := head_of_begins hbegins
  have htype := htls.2.2.1.2
  exact absurd (hletter.trans htype) (by decide)

theorem total_http_of_accepts (undef : ProtocolParser) (h : HttpParser.Accepts packet) :
    ∃ data, total undef HttpParser.parse packet = some (.http data) := by
  obtain ⟨data, hdata⟩ := HttpParser.parse_of_accepts h
  refine ⟨data, ?_⟩
  rw [total, hdata]
  rfl

theorem total_http_of_not_accepts (undef : ProtocolParser) (h : ¬ HttpParser.Accepts packet) :
    total undef HttpParser.parse packet = none := by
  rw [total, HttpParser.parse_of_not_accepts h]
  rfl

theorem total_dns (undef : ProtocolParser) : total undef DnsParser.parse packet
    = if DnsParser.isDnsPacket packet
        then some (.dns (DnsParser.headerData packet.data)) else none := by
  rw [total, DnsParser.parse_eq]
  rfl

/-- The answer of the TLS parser is one of TLS, unless it is that of a faulty access. -/
theorem total_tls_of_accepts (undef : ProtocolParser) {data : TlsData}
    (hundef : undef packet = some (.tls data)) (h : TlsParser.Accepts packet) :
    ∃ data, total undef TlsParser.parse packet = some (.tls data) := by
  rw [total, TlsParser.parse_eq, if_pos h]
  split_ifs
  · cases TlsParser.clientHelloServerName packet.data with
    | ok serverName => exact ⟨_, rfl⟩
    | error fault => exact ⟨data, hundef⟩
  · exact ⟨_, rfl⟩

theorem total_tls_of_not_accepts (undef : ProtocolParser) (h : ¬ TlsParser.Accepts packet) :
    total undef TlsParser.parse packet = none := by
  rw [total, TlsParser.parse_eq, if_neg h]
  rfl

/-! ### The order -/

/-- **When the parsers give one answer**, whatever comes of a faulty access. -/
theorem unanimous_iff :
    (∀ undef, Unanimous (createAllParsers undef) packet) ↔ ¬ Ambiguous packet := by
  constructor
  · rintro h ⟨hdns, hother⟩
    -- an outcome of a faulty access that is not an answer of the DNS parser
    let undef : ProtocolParser := fun _ => some (.tls {})
    have hdnsMem : total undef DnsParser.parse ∈ createAllParsers undef := .tail _ (.head _)
    have hdnsAnswer := (total_dns undef).trans (if_pos hdns)
    rcases hother with hhttp | htls
    · obtain ⟨data, hdata⟩ := total_http_of_accepts undef hhttp
      cases h undef _ (.head _) _ hdnsMem _ hdata _ hdnsAnswer
    · obtain ⟨data, hdata⟩ := total_tls_of_accepts undef rfl htls
      cases h undef _ (.tail _ (.tail _ (.head _))) _ hdnsMem _ hdata _ hdnsAnswer
  · intro h undef
    have hall : ∀ property : ProtocolParser → Prop, property (total undef HttpParser.parse) →
        property (total undef DnsParser.parse) → property (total undef TlsParser.parse) →
        ∀ parser ∈ createAllParsers undef, property parser := by
      intro property hhttp hdns htls
      simpa [createAllParsers] using ⟨hhttp, hdns, htls⟩
    by_cases hdns : DnsParser.isDnsPacket packet = true
    · obtain ⟨hhttp, htls⟩ := not_or.mp fun hother => h ⟨hdns, hother⟩
      exact unanimous_of_only (total undef DnsParser.parse) (hall _
        (.inr (total_http_of_not_accepts undef hhttp)) (.inl rfl)
        (.inr (total_tls_of_not_accepts undef htls)))
    · have hnone := (total_dns undef).trans (if_neg hdns)
      by_cases hhttp : HttpParser.Accepts packet
      · exact unanimous_of_only (total undef HttpParser.parse) (hall _ (.inl rfl) (.inr hnone)
          (.inr (total_tls_of_not_accepts undef (not_tlsAccepts_of_httpAccepts hhttp))))
      · exact unanimous_of_only (total undef TlsParser.parse) (hall _
          (.inr (total_http_of_not_accepts undef hhttp)) (.inr hnone) (.inl rfl))

/-- **When the order is of no importance** for a packet. -/
theorem detect_order_iff :
    (∀ undef parsers, parsers.Perm (createAllParsers undef) →
        detect parsers packet = detect (createAllParsers undef) packet)
      ↔ ¬ Ambiguous packet := by
  rw [← unanimous_iff]
  exact forall_congr' fun undef => ask_perm_iff

/-- What a packet makes of the statistics of its connection comes from what is detected in it. -/
theorem update_congr {parsers parsers' : List ProtocolParser}
    (h : detect parsers packet = detect parsers' packet) (stats : Option ConnectionStats) :
    update parsers stats packet = update parsers' stats packet := by
  have hanalyze : ∀ stats, analyzeProtocol packet stats parsers
      = analyzeProtocol packet stats parsers' := by
    intro stats
    rw [analyzeProtocol_eq_detect, analyzeProtocol_eq_detect, h]
  unfold update newStats nextStats
  simp only [hanalyze]

/-- **The order of the parsers is of no importance** for an analyzer that has processed no packet of
port 53 that begins like an HTTP message or a TLS record: whatever the packets and the resets are,
it has the same connections, with the same statistics, for every order. -/
theorem connections_order {undef : ProtocolParser} {parsers : List ProtocolParser}
    (hperm : parsers.Perm (createAllParsers undef)) {calls : List Call}
    (h : ∀ packet ∈ sinceReset calls, ¬ Ambiguous packet) :
    (calls.foldl call (create parsers)).connections
      = (calls.foldl call (create (createAllParsers undef))).connections := by
  rw [connections_foldl_call, connections_foldl_call]
  refine List.foldl_ext _ _ _ fun connections packet hpacket => ?_
  have hdetect := detect_order_iff.mpr (h packet hpacket) undef parsers hperm
  rw [KeyedFold.accumulate, KeyedFold.accumulate, update_congr hdetect]

/-- A request on the port of HTTP, and a query on that of DNS. -/
def requestThenQuery : List Call :=
  [.processPacket (requestFrame.packetInfo 0 0 81 requestFrame.payload),
    .processPacket { query with destPort := 53 }]

theorem connections_order_requestThenQuery :
    (requestThenQuery.foldl call (create (createAllParsers fun _ => none).reverse)).connections
      = (requestThenQuery.foldl call (create (createAllParsers fun _ => none))).connections :=
  connections_order (List.reverse_perm _) (by decide +kernel)

end NetSentry.PacketAnalyzer
