import NetSentry.Network.PacketCapture

/-!
# Ethernet frames with IPv4

An `EthernetFrame` is an Ethernet II frame with an IPv4 packet that is not a fragment, of any
protocol, as far as it is captured: the IPv4 header whole, and where the protocol is TCP or UDP the
transport header whole.  `encode` writes its captured bytes out, and `reverse` is the frame that
goes the other way.
-/

namespace NetSentry

open Bytes

/-- A field of `n` bytes. -/
abbrev Octets (n : ℕ) := { b : Bytes // b.length = n }

/-- Header options: whole words, ten at most. -/
abbrev HeaderOptions := { b : Bytes // 4 ∣ b.length ∧ b.length ≤ 40 }

/-- What is captured behind the IPv4 header. -/
inductive Segment
  | tcp (sourcePort destPort : UInt16) (rest : Bytes) (complete : 16 ≤ rest.length)
  | udp (sourcePort destPort : UInt16) (rest : Bytes) (complete : 4 ≤ rest.length)
  | other (protocol : UInt8) (bytes : Bytes) (not_tcp : protocol ≠ IPPROTO_TCP)
    (not_udp : protocol ≠ IPPROTO_UDP)

namespace Segment

def protocol : Segment → UInt8
  | tcp .. => IPPROTO_TCP
  | udp .. => IPPROTO_UDP
  | other protocol .. => protocol

/-- The source port; zero where the protocol is neither TCP nor UDP. -/
def sourcePort : Segment → UInt16
  | tcp sourcePort .. => sourcePort
  | udp sourcePort .. => sourcePort
  | other .. => 0

/-- The destination port; zero where the protocol is neither TCP nor UDP. -/
def destPort : Segment → UInt16
  | tcp _ destPort .. => destPort
  | udp _ destPort .. => destPort
  | other .. => 0

/-- The bytes: the two ports lead the header of TCP and of UDP. -/
def encode : Segment → Bytes
  | tcp sourcePort destPort rest _ => encode16 sourcePort ++ (encode16 destPort ++ rest)
  | udp sourcePort destPort rest _ => encode16 sourcePort ++ (encode16 destPort ++ rest)
  | other _ bytes .. => bytes

/-- The segment with its ports swapped. -/
def reverse : Segment → Segment
  | tcp sourcePort destPort rest complete => tcp destPort sourcePort rest complete
  | udp sourcePort destPort rest complete => udp destPort sourcePort rest complete
  | other protocol bytes not_tcp not_udp => other protocol bytes not_tcp not_udp

@[simp] theorem protocol_reverse (segment : Segment) :
    segment.reverse.protocol = segment.protocol := by cases segment <;> rfl

@[simp] theorem sourcePort_reverse (segment : Segment) :
    segment.reverse.sourcePort = segment.destPort := by cases segment <;> rfl

@[simp] theorem destPort_reverse (segment : Segment) :
    segment.reverse.destPort = segment.sourcePort := by cases segment <;> rfl

end Segment

/-- An Ethernet II frame with an IPv4 packet that is not a fragment. -/
structure EthernetFrame where
  destMac : Octets 6
  sourceMac : Octets 6
  typeOfService : UInt8
  totalLength : UInt16
  identification : UInt16
  dontFragment : Bool
  timeToLive : UInt8
  checksum : UInt16
  sourceAddr : Octets 4
  destAddr : Octets 4
  options : HeaderOptions
  segment : Segment

namespace EthernetFrame

/-- The number of 32-bit words in the IPv4 header. -/
def headerWords (frame : EthernetFrame) : ℕ := 5 + frame.options.1.length / 4

/-- The Ethernet header, which says that IPv4 follows. -/
def ethernetHeader (frame : EthernetFrame) : Bytes :=
  frame.destMac.1 ++ (frame.sourceMac.1 ++ encode16 0x0800)

/-- The twelve bytes of the IPv4 header before its addresses. -/
def fixedHeader (frame : EthernetFrame) : Bytes :=
  (0x40 + frame.headerWords).toUInt8 :: frame.typeOfService :: (encode16 frame.totalLength ++
    (encode16 frame.identification ++ (encode16 (if frame.dontFragment then 0x4000 else 0) ++
      frame.timeToLive :: frame.segment.protocol :: encode16 frame.checksum)))

/-- The bytes that are captured of the frame. -/
def encode (frame : EthernetFrame) : Bytes :=
  frame.ethernetHeader ++ (frame.fixedHeader ++ (frame.sourceAddr.1 ++ (frame.destAddr.1 ++
    (frame.options.1 ++ frame.segment.encode))))

/-- The frame with its addresses and its ports swapped. -/
def reverse (frame : EthernetFrame) : EthernetFrame :=
  { frame with
    sourceAddr := frame.destAddr
    destAddr := frame.sourceAddr
    segment := frame.segment.reverse }

/-- What the frame says of a packet: its protocol, its addresses and its ports. -/
def describe (frame : EthernetFrame) (packet : PacketInfo) : PacketInfo :=
  { packet with
    protocol := frame.segment.protocol
    sourceIp := dottedDecimal frame.sourceAddr.1
    destIp := dottedDecimal frame.destAddr.1
    sourcePort := frame.segment.sourcePort
    destPort := frame.segment.destPort }

end EthernetFrame

/-- The packet with its ends swapped. -/
def PacketInfo.swapEnds (packet : PacketInfo) : PacketInfo :=
  { packet with
    sourceIp := packet.destIp
    destIp := packet.sourceIp
    sourcePort := packet.destPort
    destPort := packet.sourcePort }

end NetSentry
