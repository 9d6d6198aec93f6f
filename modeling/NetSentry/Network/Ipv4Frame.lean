import NetSentry.Network.EthernetFrame

/-!
# Ethernet frames with TCP and UDP over IPv4

An `Ipv4Frame` is a well-formed, unfragmented Ethernet/IPv4/TCP or Ethernet/IPv4/UDP frame: headers
of any length with any options, any payload and any trailer.  `toEthernetFrame` is the frame as it
is captured whole, `encode` writes its bytes out, and `captured` is what `pcap_next_ex` delivers.
-/

namespace NetSentry

open Bytes

/-- A TCP header. -/
structure TcpHeader where
  sourcePort : UInt16
  destPort : UInt16
  sequenceNumber : Octets 4
  acknowledgment : Octets 4
  reserved : Fin 16
  flags : UInt8
  window : UInt16
  checksum : UInt16
  urgentPointer : UInt16
  options : HeaderOptions

/-- The header after its ports. -/
def TcpHeader.encodeRest (header : TcpHeader) : Bytes :=
  header.sequenceNumber.1 ++ (header.acknowledgment.1 ++
    (((5 + header.options.1.length / 4) * 16 + header.reserved.1).toUInt8 :: header.flags ::
      (encode16 header.window ++ (encode16 header.checksum ++ (encode16 header.urgentPointer ++
        header.options.1)))))

/-- A UDP header. -/
structure UdpHeader where
  sourcePort : UInt16
  destPort : UInt16
  checksum : UInt16

/-- A transport header. -/
inductive Transport
  | tcp (header : TcpHeader)
  | udp (header : UdpHeader)

namespace Transport

/-- The protocol number of the transport. -/
def protocol : Transport → UInt8
  | tcp _ => IPPROTO_TCP
  | udp _ => IPPROTO_UDP

def sourcePort : Transport → UInt16
  | tcp header => header.sourcePort
  | udp header => header.sourcePort

def destPort : Transport → UInt16
  | tcp header => header.destPort
  | udp header => header.destPort

/-- The length of the header in bytes. -/
def headerLength : Transport → ℕ
  | tcp header => 20 + header.options.1.length
  | udp _ => 8

/-- The header after its ports, given the length of the payload. -/
def encodeRest (payloadLength : ℕ) : Transport → Bytes
  | tcp header => header.encodeRest
  | udp header => encode16 (8 + payloadLength).toUInt16 ++ encode16 header.checksum

theorem length_encodeRest (payloadLength : ℕ) (transport : Transport) :
    (transport.encodeRest payloadLength).length = transport.headerLength - 4 := by
  cases transport with
  | tcp header =>
    simp [encodeRest, TcpHeader.encodeRest, headerLength, header.sequenceNumber.2,
      header.acknowledgment.2]
    omega
  | udp header => rfl

theorem eight_le_headerLength (transport : Transport) : 8 ≤ transport.headerLength := by
  cases transport with
  | tcp header => exact Nat.le_add_right_of_le (by decide)
  | udp header => exact le_rfl

/-- What a transport header, the payload and the trailer are captured as. -/
def segment (transport : Transport) (payload trailer : Bytes) : Segment :=
  match transport with
  | tcp header =>
    .tcp header.sourcePort header.destPort
      ((tcp header).encodeRest payload.length ++ (payload ++ trailer)) <| by
        rw [List.length_append, length_encodeRest, headerLength]
        omega
  | udp header =>
    .udp header.sourcePort header.destPort
      ((udp header).encodeRest payload.length ++ (payload ++ trailer)) <| by
        rw [List.length_append, length_encodeRest, headerLength]
        omega

end Transport

/-- An Ethernet frame with an IPv4 packet that is not a fragment. -/
structure Ipv4Frame where
  destMac : Octets 6
  sourceMac : Octets 6
  typeOfService : UInt8
  identification : UInt16
  dontFragment : Bool
  timeToLive : UInt8
  checksum : UInt16
  sourceAddr : Octets 4
  destAddr : Octets 4
  options : HeaderOptions
  transport : Transport
  payload : Bytes
  /-- What follows the IPv4 packet in the frame, such as padding. -/
  trailer : Bytes
  total_length : 20 + options.1.length + transport.headerLength + payload.length < 2 ^ 16

namespace Ipv4Frame

/-- The frame that is captured, with the payload and the trailer behind the transport header. -/
def toEthernetFrame (frame : Ipv4Frame) : EthernetFrame where
  destMac := frame.destMac
  sourceMac := frame.sourceMac
  typeOfService := frame.typeOfService
  totalLength := (20 + frame.options.1.length + frame.transport.headerLength
    + frame.payload.length).toUInt16
  identification := frame.identification
  dontFragment := frame.dontFragment
  timeToLive := frame.timeToLive
  checksum := frame.checksum
  sourceAddr := frame.sourceAddr
  destAddr := frame.destAddr
  options := frame.options
  segment := frame.transport.segment frame.payload frame.trailer

/-- The bytes of the frame. -/
def encode (frame : Ipv4Frame) : Bytes := frame.toEthernetFrame.encode

/-- The frame as it is captured whole. -/
def captured (frame : Ipv4Frame) (tvSec tvUsec : Int64) (len : UInt32) : PcapPacket where
  tvSec := tvSec
  tvUsec := tvUsec
  len := len
  bytes := frame.encode

/-- The packet that stands for the frame, with the given bytes as its data. -/
def packetInfo (frame : Ipv4Frame) (tvSec tvUsec : Int64) (len : UInt32) (data : Bytes) :
    PacketInfo where
  data := data
  size := len.toUInt64
  sourceIp := dottedDecimal frame.sourceAddr.1
  destIp := dottedDecimal frame.destAddr.1
  sourcePort := frame.transport.sourcePort
  destPort := frame.transport.destPort
  protocol := frame.transport.protocol
  timestamp := tvSec.toUInt64 * 1000000 + tvUsec.toUInt64

end Ipv4Frame

end NetSentry
