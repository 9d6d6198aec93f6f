import NetSentry.Network.Equiv.DnsParser
import NetSentry.Network.Equiv.HttpParser
import NetSentry.Network.Equiv.Ipv4Frame
import NetSentry.Network.Equiv.TlsParser
import NetSentry.Network.PacketAnalyzer

/-!
# What the analyzer detects in a frame and in its payload

The parsers read a packet's data from its first byte on, and the capture module puts the whole frame
there.  `captured_sameDetection`: what is then recorded of the protocol of a new connection is what
would be recorded from the payload alone when the frame and the payload are read alike from their
first bytes on, and, unless both pass for HTTP or both for a TLS client hello, only then.

* `recordedProtocol_of_new`: the protocol recorded for a new connection is what the first parser
  that recognises the packet returns.
* `detect_of_http`, `detect_of_dns`, `detect_of_other`: which parser that is.
* `parse_total_eq_iff`: two packets on which the outcome of a faulty access is open get the same
  verdict only where no faulty access is made.
-/

namespace NetSentry.PacketAnalyzer

open Bytes Checked ProtocolParserFactory

/-! ### The protocol recorded for a new connection -/

/-- What the first parser that recognises the packet returns. -/
def detect (parsers : List ProtocolParser) (packet : PacketInfo) : Option ProtocolData :=
  parsers.findSome? (· packet)

theorem analyzeProtocol_eq_detect (packet : PacketInfo) (stats : ConnectionStats)
    (parsers : List ProtocolParser) :
    analyzeProtocol packet stats parsers
      = (detect parsers packet).elim stats fun protocolData =>
          { stats with
            protocolType := some protocolData.type, protocolData := some protocolData } := by
  induction parsers with
  | nil => rfl
  | cons parser parsers ih =>
    rw [analyzeProtocol, detect, List.findSome?_cons]
    cases parser packet with
    | some protocolData => rfl
    | none => exact ih

/-- What is recorded of the protocol of the packet's connection when the packet is processed. -/
def recordedProtocol (a : PacketAnalyzer) (packet : PacketInfo) :
    Option (Option ProtocolType × Option ProtocolData) :=
  ((a.processPacket packet).getConnectionStats (createConnectionKey packet)).map fun stats =>
    (stats.protocolType, stats.protocolData)

/-- **The protocol of a new connection** is what the parsers detect in its first packet. -/
theorem recordedProtocol_of_new {a : PacketAnalyzer} {packet : PacketInfo}
    (h : a.connections.lookup (createConnectionKey packet) = none) :
    recordedProtocol a packet
      = some ((detect a.protocolParsers packet).map (·.type), detect a.protocolParsers packet) := by
  unfold recordedProtocol getConnectionStats processPacket
  simp only [h, Finmap.lookup_insert, Option.map_some]
  unfold newStats
  dsimp only
  rw [analyzeProtocol_eq_detect]
  cases detect a.protocolParsers packet with
  | some protocolData => rfl
  | none => split_ifs <;> rfl

/-! ### Which parser recognises a packet -/

variable {packet : PacketInfo}

theorem detect_of_http (undef : ProtocolParser) (h : HttpParser.Accepts packet) :
    ∃ data, detect (createAllParsers undef) packet = some (.http data) := by
  obtain ⟨data, hdata⟩ := HttpParser.parse_of_accepts h
  refine ⟨data, ?_⟩
  rw [detect, createAllParsers, List.map_cons, List.findSome?_cons, total, hdata]
  rfl

theorem detect_of_dns (undef : ProtocolParser) (hhttp : ¬ HttpParser.Accepts packet)
    (hdns : DnsParser.isDnsPacket packet = true) :
    detect (createAllParsers undef) packet = some (.dns (DnsParser.headerData packet.data)) := by
  rw [detect, createAllParsers, List.map_cons, List.findSome?_cons, total,
    HttpParser.parse_of_not_accepts hhttp, List.map_cons, List.findSome?_cons, total,
    DnsParser.parse_eq, if_pos hdns]
  rfl

theorem detect_of_other (undef : ProtocolParser) (hhttp : ¬ HttpParser.Accepts packet)
    (hdns : DnsParser.isDnsPacket packet = false) :
    detect (createAllParsers undef) packet
      = (TlsParser.parse packet).getD (undef packet) := by
  rw [detect, createAllParsers, List.map_cons, List.findSome?_cons, total,
    HttpParser.parse_of_not_accepts hhttp, List.map_cons, List.findSome?_cons, total,
    DnsParser.parse_eq, hdns, if_neg Bool.false_ne_true, List.map_cons, List.findSome?_cons, total]
  cases (TlsParser.parse packet).getD (undef packet) <;> rfl

/-- **Verdicts that do not depend on a faulty access**: two packets get the same verdict, whatever
comes of a faulty access, only where neither makes one. -/
theorem parse_total_eq_iff {p q : PacketInfo} (hne : p ≠ q) :
    (∀ undef : ProtocolParser,
        (TlsParser.parse p).getD (undef p) = (TlsParser.parse q).getD (undef q)) ↔
      ∃ verdict, TlsParser.parse p = .ok verdict ∧ TlsParser.parse q = .ok verdict := by
  constructor
  · intro h
    have hnone := h fun _ => none
    -- an outcome of the faulty access that tells the two packets apart
    have hp := h fun packet => if packet = p then some (.dns {}) else none
    have hq := h fun packet => if packet = q then some (.dns {}) else none
    simp only [if_true, if_neg hne, if_neg hne.symm] at hp hq
    cases hparse : TlsParser.parse p with
    | ok verdict =>
      cases hparse' : TlsParser.parse q with
      | ok verdict' =>
        rw [hparse, hparse'] at hnone
        exact ⟨verdict, rfl, congrArg Except.ok hnone.symm⟩
      | error fault =>
        rw [hparse, hparse'] at hnone hq
        exact absurd (hnone.symm.trans hq) (by simp [Checked.getD])
    | error fault =>
      rw [hparse] at hnone hp
      exact absurd (hnone.trans hp.symm) (by simp [Checked.getD])
  · rintro ⟨verdict, hp, hq⟩ undef
    rw [hp, hq]
    rfl

/-! ### Packets that differ in their data -/

/-- Every analyzer that does not have the packet's connection yet records the same protocol for it
from the packet as from the packet with the other data. -/
def SameDetection (packet : PacketInfo) (data : Bytes) : Prop :=
  ∀ (undef : ProtocolParser) (a : PacketAnalyzer), a.protocolParsers = createAllParsers undef →
    a.connections.lookup (createConnectionKey packet) = none →
      recordedProtocol a packet = recordedProtocol a { packet with data := data }

theorem sameDetection_iff {data : Bytes} : SameDetection packet data ↔ ∀ undef : ProtocolParser,
    detect (createAllParsers undef) packet
      = detect (createAllParsers undef) { packet with data := data } := by
  constructor
  · intro h undef
    have hrecorded := h undef (create (createAllParsers undef)) rfl rfl
    rw [recordedProtocol_of_new rfl, recordedProtocol_of_new rfl] at hrecorded
    exact congrArg Prod.snd (Option.some.inj hrecorded)
  · intro h undef a hparsers hnew
    have hnew' : a.connections.lookup (createConnectionKey { packet with data := data }) = none :=
      hnew
    rw [recordedProtocol_of_new hnew, recordedProtocol_of_new hnew', hparsers, h undef]

/-- The parsers read the packet's data and the other data alike from the first byte on: neither is
taken for HTTP; and with a port of DNS the header bytes agree, without one neither is taken for a
TLS record or both are, for records that agree. -/
def ReadsAlike (packet : PacketInfo) (data : Bytes) : Prop :=
  ¬ HttpParser.Accepts packet ∧ ¬ HttpParser.Accepts { packet with data := data } ∧
    if DnsParser.isDnsPacket packet then DnsParser.SameHeader packet.data data
    else (¬ TlsParser.Accepts packet ∧ ¬ TlsParser.Accepts { packet with data := data }) ∨
      (TlsParser.Accepts packet ∧ TlsParser.Accepts { packet with data := data } ∧
        TlsParser.SameRecord packet.data data)

/-- Both are taken for HTTP, or both for TLS client hellos. -/
def BothParsed (packet : PacketInfo) (data : Bytes) : Prop :=
  (HttpParser.Accepts packet ∧ HttpParser.Accepts { packet with data := data }) ∨
    (TlsParser.Accepts packet ∧ TlsParser.Accepts { packet with data := data } ∧
      TlsParser.BeginsClientHello packet.data ∧ TlsParser.BeginsClientHello data)

theorem sameDetection_of_readsAlike {data : Bytes} (hlen : 12 ≤ packet.data.length)
    (h : ReadsAlike packet data) : SameDetection packet data := by
  obtain ⟨hhttp, hhttp', hrest⟩ := h
  rw [sameDetection_iff]
  intro undef
  cases hdns : DnsParser.isDnsPacket packet with
  | true =>
    rw [hdns, if_pos rfl] at hrest
    have hheader := (DnsParser.headerData_eq_iff hlen).mpr hrest
    rw [detect_of_dns undef hhttp hdns, detect_of_dns undef hhttp' hdns, hheader]
  | false =>
    rw [hdns, if_neg Bool.false_ne_true] at hrest
    rw [detect_of_other undef hhttp hdns, detect_of_other undef hhttp' hdns]
    rcases hrest with ⟨hno, hno'⟩ | ⟨htls, htls', hrecord⟩
    · rw [TlsParser.parse_eq, if_neg hno, TlsParser.parse_eq, if_neg hno']
      rfl
    · have hhello := hrecord.2.1
      have hhello' := hrecord.2.2.1
      have heq := (TlsParser.recordData_eq_iff fun hb => hhello hb.1).mpr hrecord
      rw [TlsParser.parse_of_not_beginsClientHello htls hhello,
        TlsParser.parse_of_not_beginsClientHello htls' hhello', heq]
      rfl

/-- A packet that is not taken for HTTP does not get the verdict of one that is. -/
theorem detect_ne_http (hhttp : ¬ HttpParser.Accepts packet) (response : HttpData) :
    detect (createAllParsers fun _ => none) packet ≠ some (.http response) := by
  -- the packet is DNS, or what the TLS parser says of it
  cases hdns : DnsParser.isDnsPacket packet with
  | true => simp [detect_of_dns _ hhttp hdns]
  | false =>
    rw [detect_of_other _ hhttp hdns]
    cases hparse : TlsParser.parse packet with
    | error fault => simp [Checked.getD]
    | ok verdict =>
      by_cases htls : TlsParser.Accepts packet
      · obtain ⟨serverName, hverdict⟩ := TlsParser.recordData_of_parse htls hparse
        simp [Checked.getD, hverdict]
      · rw [TlsParser.parse_eq, if_neg htls] at hparse
        obtain rfl := Except.ok.inj hparse
        simp [Checked.getD]

/-- Two packets with one verdict of the TLS parser. -/
theorem sameRecord_of_parse_eq {p q : PacketInfo} {verdict : Option ProtocolData}
    (hp : TlsParser.parse p = .ok verdict) (hq : TlsParser.parse q = .ok verdict)
    (hboth : TlsParser.Accepts p → TlsParser.Accepts q →
      ¬ (TlsParser.BeginsClientHello p.data ∧ TlsParser.BeginsClientHello q.data)) :
    (¬ TlsParser.Accepts p ∧ ¬ TlsParser.Accepts q) ∨
      (TlsParser.Accepts p ∧ TlsParser.Accepts q ∧ TlsParser.SameRecord p.data q.data) := by
  -- a packet that is not accepted has no verdict, one that is has one
  have hnone : ∀ {p : PacketInfo}, ¬ TlsParser.Accepts p → TlsParser.parse p = .ok verdict →
      verdict = none := by
    intro p htls hparse
    rw [TlsParser.parse_eq, if_neg htls] at hparse
    exact (Except.ok.inj hparse).symm
  by_cases htls : TlsParser.Accepts p <;> by_cases htls' : TlsParser.Accepts q
  · obtain ⟨serverName, hname⟩ := TlsParser.recordData_of_parse htls hp
    obtain ⟨serverName', hname'⟩ := TlsParser.recordData_of_parse htls' hq
    have heq : ({ TlsParser.recordData p.data with serverName := serverName } : TlsData)
        = { TlsParser.recordData q.data with serverName := serverName' } := by
      simpa using hname.symm.trans hname'
    have hrecord : TlsParser.recordData p.data = TlsParser.recordData q.data :=
      congrArg (fun d : TlsData => { d with serverName := none }) heq
    exact .inr ⟨htls, htls', (TlsParser.recordData_eq_iff (hboth htls htls')).mp hrecord⟩
  · obtain ⟨serverName, hname⟩ := TlsParser.recordData_of_parse htls hp
    cases (hnone htls' hq).symm.trans hname
  · obtain ⟨serverName, hname⟩ := TlsParser.recordData_of_parse htls' hq
    cases (hnone htls hp).symm.trans hname
  · exact .inl ⟨htls, htls'⟩

theorem readsAlike_of_sameDetection {data : Bytes} (hlen : 12 ≤ packet.data.length)
    (hne : packet.data ≠ data) (hboth : ¬ BothParsed packet data)
    (h : SameDetection packet data) : ReadsAlike packet data := by
  rw [sameDetection_iff] at h
  set packet' : PacketInfo := { packet with data := data } with hpacket'
  obtain ⟨hhttp2, hhello2⟩ := not_or.mp hboth
  -- one of the two taken for HTTP would be told apart from the other
  have hhttp : ¬ HttpParser.Accepts packet := by
    intro hp
    obtain ⟨response, hresponse⟩ := detect_of_http (fun _ => none) hp
    exact detect_ne_http (fun hp' => hhttp2 ⟨hp, hp'⟩) response ((h _).symm.trans hresponse)
  have hhttp' : ¬ HttpParser.Accepts packet' := by
    intro hp
    obtain ⟨response, hresponse⟩ := detect_of_http (fun _ => none) hp
    exact detect_ne_http hhttp response ((h _).trans hresponse)
  refine ⟨hhttp, hhttp', ?_⟩
  cases hdns : DnsParser.isDnsPacket packet with
  | true =>
    have hdns' : DnsParser.isDnsPacket packet' = true := hdns
    have heq := h fun _ => none
    rw [detect_of_dns _ hhttp hdns, detect_of_dns _ hhttp' hdns'] at heq
    rw [if_pos rfl, ← DnsParser.headerData_eq_iff hlen]
    simpa using heq
  | false =>
    have hdns' : DnsParser.isDnsPacket packet' = false := hdns
    have hne' : packet ≠ packet' := by
      intro heq
      exact hne (congrArg PacketInfo.data heq)
    obtain ⟨verdict, hverdict, hverdict'⟩ := (parse_total_eq_iff hne').mp fun undef => by
      rw [← detect_of_other undef hhttp hdns, ← detect_of_other undef hhttp' hdns', h undef]
    rw [if_neg Bool.false_ne_true]
    exact sameRecord_of_parse_eq hverdict hverdict' fun htls htls' hb =>
      hhello2 ⟨htls, htls', hb⟩

/-! ### Captured frames -/

/-- **When a captured frame is detected like its payload**: when the two are read alike, and, unless
both pass for HTTP or both for a client hello, only then. -/
theorem captured_sameDetection (u : Indeterminate) (frame : Ipv4Frame) (tvSec tvUsec : Int64)
    (len : UInt32) :
    ∃ packet, PacketCapture.capturePacket u (some (frame.captured tvSec tvUsec len)) = .ok packet ∧
      (ReadsAlike packet frame.payload → SameDetection packet frame.payload) ∧
      (¬ BothParsed packet frame.payload → SameDetection packet frame.payload →
        ReadsAlike packet frame.payload) := by
  refine ⟨_, PacketCapture.capturePacket_captured u frame tvSec tvUsec len, ?_⟩
  have hlen := PacketCapture.length_encode frame
  have hheader := Transport.eight_le_headerLength frame.transport
  have hlong : 12 ≤ (frame.packetInfo tvSec tvUsec len frame.encode).data.length := by
    simp only [Ipv4Frame.packetInfo]
    omega
  -- the frame has its headers on top of the payload
  have hne : (frame.packetInfo tvSec tvUsec len frame.encode).data ≠ frame.payload := by
    intro heq
    have hlength := congrArg List.length heq
    simp only [Ipv4Frame.packetInfo] at hlength
    omega
  exact ⟨sameDetection_of_readsAlike hlong, readsAlike_of_sameDetection hlong hne⟩

/-- The frame of an HTTP request. -/
def requestFrame : Ipv4Frame where
  destMac := ⟨[2, 0, 0, 0, 0, 1], rfl⟩
  sourceMac := ⟨[2, 0, 0, 0, 0, 2], rfl⟩
  typeOfService := 0
  identification := 1
  dontFragment := true
  timeToLive := 64
  checksum := 0x26b2
  sourceAddr := ⟨[10, 0, 0, 1], rfl⟩
  destAddr := ⟨[10, 0, 0, 2], rfl⟩
  options := ⟨[], by decide⟩
  transport := .tcp {
    sourcePort := 40000
    destPort := 80
    sequenceNumber := ⟨[0, 0, 0, 1], rfl⟩
    acknowledgment := ⟨[0, 0, 0, 1], rfl⟩
    reserved := 0
    flags := 0x18
    window := 0x0200
    checksum := 0xc067
    urgentPointer := 0
    options := ⟨[], by decide⟩ }
  payload := ascii "GET / HTTP/1.1\r\nHost: a\r\n\r\n"
  trailer := []
  total_length := by decide

/-- The request is not detected in its frame. -/
theorem not_forall_captured_sameDetection :
    ¬ ∀ (u : Indeterminate) (frame : Ipv4Frame) (tvSec tvUsec : Int64) (len : UInt32)
      (packet : PacketInfo),
      PacketCapture.capturePacket u (some (frame.captured tvSec tvUsec len)) = .ok packet →
        SameDetection packet frame.payload := by
  intro h
  have hsame := h ⟨0, 0, 0, 0, 0⟩ requestFrame 0 0 81 _
    (PacketCapture.capturePacket_captured _ requestFrame 0 0 81)
  have hnone : detect (createAllParsers fun _ => none)
      (requestFrame.packetInfo 0 0 81 requestFrame.encode) = none := by decide +kernel
  have hsome : detect (createAllParsers fun _ => none)
      (requestFrame.packetInfo 0 0 81 requestFrame.payload) ≠ none := by decide +kernel
  exact hsome ((sameDetection_iff.mp hsame _).symm.trans hnone)

end NetSentry.PacketAnalyzer
