import NetSentry.Network.Equiv.DnsParser

/-!
# DNS over UDP and over TCP

A DNS message is the data of a UDP packet as it stands; over TCP it follows its own length.
`DnsParser.parse` admits both transports and reads both at the same offsets:

* `decodesAs_overUdp`: over UDP it returns the identifier and the direction of the message.
* `headerData_frame16`: over TCP it returns the length of the message for its identifier.
* `decodesAlike_iff`: the messages that the two transports decode alike.
-/

namespace NetSentry.DnsParser

open Bytes

/-- The UDP packet that carries a message. -/
def overUdp (packet : PacketInfo) (message : Bytes) : PacketInfo :=
  { packet with protocol := IPPROTO_UDP, data := message }

/-- The TCP packet that carries a message: the message after its two-byte length. -/
def overTcp (packet : PacketInfo) (message : Bytes) : PacketInfo :=
  { packet with protocol := IPPROTO_TCP, data := frame16 message }

/-- The parser returns what the header of the message says: its first two bytes are the identifier
and the top bit of its third tells an answer from a query. -/
def DecodesAs (packet : PacketInfo) (message : Bytes) : Prop :=
  ∃ data : DnsData, parse packet = .ok (some (.dns data)) ∧
    data.transactionId = be16 (message.getD 0 0) (message.getD 1 0) ∧
    (data.isQuery = true ↔ message.getD 2 0 < 128)

/-- Both transports decode to what the header of the message says. -/
def DecodesAlike (packet : PacketInfo) (message : Bytes) : Prop :=
  DecodesAs (overUdp packet message) message ∧ DecodesAs (overTcp packet message) message

/-- The length of the message reads like its first two bytes, and the top bit of its first byte is
that of its third. -/
def LengthReadsAsHeader (message : Bytes) : Prop :=
  be16 (message.getD 0 0) (message.getD 1 0) = message.length.toUInt16 ∧
    (message.getD 0 0 < 128 ↔ message.getD 2 0 < 128)

section

variable {packet : PacketInfo} {message : Bytes}

theorem parse_of_port (hprotocol : packet.protocol = IPPROTO_UDP ∨ packet.protocol = IPPROTO_TCP)
    (hport : packet.sourcePort = 53 ∨ packet.destPort = 53) :
    parse packet = .ok (some (.dns (headerData packet.data))) := by
  have hdns : isDnsPacket packet = true := by
    simp only [isDnsPacket, Bool.or_eq_true, Bool.and_eq_true, decide_eq_true_eq]
    exact hprotocol.imp (⟨·, hport⟩) (⟨·, hport⟩)
  rw [parse_eq, if_pos hdns]

theorem parse_overUdp (hport : packet.sourcePort = 53 ∨ packet.destPort = 53) :
    parse (overUdp packet message) = .ok (some (.dns (headerData message))) :=
  parse_of_port (.inl rfl) hport

theorem parse_overTcp (hport : packet.sourcePort = 53 ∨ packet.destPort = 53) :
    parse (overTcp packet message) = .ok (some (.dns (headerData (frame16 message)))) :=
  parse_of_port (.inr rfl) hport

/-- The parser takes the length for the identifier and the first byte for the flags. -/
theorem headerData_frame16 (h : 12 ≤ message.length) :
    headerData (frame16 message) =
      { type := .dns
        transactionId := message.length.toUInt16
        isQuery := message.getD 0 0 < 128 } := by
  have hlen : ¬ (frame16 message).length < 12 := by
    rw [length_frame16]
    omega
  have hid : be16 ((frame16 message).getD 0 0) ((frame16 message).getD 1 0)
      = message.length.toUInt16 := be16_encode16 _
  have hflags : (frame16 message).getD 2 0 = message.getD 0 0 := rfl
  unfold headerData
  rw [if_neg hlen, hid, hflags]
  simp only [hlen, false_or]

/-- Over UDP the message is decoded, whatever it is. -/
theorem decodesAs_overUdp (hport : packet.sourcePort = 53 ∨ packet.destPort = 53)
    (h : 12 ≤ message.length) : DecodesAs (overUdp packet message) message := by
  have hlen : ¬ message.length < 12 := by omega
  refine ⟨_, parse_overUdp hport, if_neg hlen, ?_⟩
  simp [headerData, hlen]

theorem decodesAs_overTcp_iff (hport : packet.sourcePort = 53 ∨ packet.destPort = 53)
    (h : 12 ≤ message.length) :
    DecodesAs (overTcp packet message) message ↔ LengthReadsAsHeader message := by
  unfold DecodesAs LengthReadsAsHeader
  rw [parse_overTcp hport, headerData_frame16 h]
  constructor
  · rintro ⟨data, hparse, hid, hquery⟩
    obtain rfl : _ = data := ProtocolData.dns.inj (Option.some.inj (Except.ok.inj hparse))
    exact ⟨hid.symm, by simpa using hquery⟩
  · rintro ⟨hid, hquery⟩
    exact ⟨_, rfl, hid.symm, by simpa using hquery⟩

/-- **DNS over TCP is decoded like DNS over UDP** for the messages whose own length reads like
their header, and for no others. -/
theorem decodesAlike_iff (packet : PacketInfo) (message : Short16)
    (hport : packet.sourcePort = 53 ∨ packet.destPort = 53) (hmin : 12 ≤ message.1.length) :
    DecodesAlike packet message.1 ↔ LengthReadsAsHeader message.1 := by
  unfold DecodesAlike
  rw [decodesAs_overTcp_iff hport hmin, and_iff_right (decodesAs_overUdp hport hmin)]

end

/-- A packet to a name server. -/
def toServer : PacketInfo :=
  { data := [], size := 60, sourceIp := [], destIp := [], sourcePort := 40000, destPort := 53
    protocol := IPPROTO_UDP, timestamp := 0 }

/-- The header of a recursive query with identifier 0x1234 and no sections. -/
def bareQuery : Short16 := ⟨[0x12, 0x34, 1, 0, 0, 0, 0, 0, 0, 0, 0, 0], by decide⟩

theorem decodesAlike_iff_bareQuery :
    DecodesAlike toServer bareQuery.1 ↔ LengthReadsAsHeader bareQuery.1 :=
  decodesAlike_iff toServer bareQuery (by decide) (by decide)

/-- Over TCP the query of identifier 0x1234 is read with identifier 12. -/
theorem bareQuery_not_decodesAlike :
    ¬ ∀ (packet : PacketInfo) (message : Short16),
      packet.sourcePort = 53 ∨ packet.destPort = 53 → 12 ≤ message.1.length →
      DecodesAlike packet message.1 := by
  intro h
  obtain ⟨-, data, hparse, hid, -⟩ := h toServer bareQuery (by decide) (by decide)
  obtain rfl : _ = data :=
    ProtocolData.dns.inj (Option.some.inj (Except.ok.inj ((parse_overTcp (by decide)).symm.trans
      hparse)))
  exact absurd hid (by decide)

end NetSentry.DnsParser
