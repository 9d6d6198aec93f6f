import NetSentry.Core.CircularBuffer
import NetSentry.Network.PacketInfo

/-!
# `PacketCapture`

What the capture module makes of the outcome of one `pcap_next_ex`: `capturePacket` copies the
captured bytes and `parsePacket` decodes the Ethernet and IPv4 headers.  Every byte that is read or
copied through the frame is a checked access.  `processPacket` counts a packet, hands it to the
registered handlers and keeps it; `captureThreadFunc` does so for the packets of a positive size.
-/

namespace NetSentry

open Bytes Checked

/-- A packet that `pcap_next_ex` delivers: the members of the header and the captured bytes, of
which there are `caplen`. -/
structure PcapPacket where
  tvSec : Int64
  tvUsec : Int64
  len : UInt32
  bytes : Bytes

/-- The outcome of `pcap_next_ex`: a result of at most zero, or a packet. -/
abbrev PcapOutcome := Option PcapPacket

/-- The canonical dotted-decimal text of an address, as `inet_ntoa` and `inet_ntop` write it. -/
def dottedDecimal (addr : Bytes) : Bytes :=
  (ascii ".").intercalate (addr.map fun b => decimal b.toNat)

namespace PacketCapture

/-- `PacketCapture::Impl::parsePacket`. -/
def parsePacket (packet : PacketInfo) (packetData : Bytes) (len : ℕ) : Checked PacketInfo :=
  if len < 14 then pure packet
  else do
    let versionAndLength ← readAt packetData 14
    let ipHeaderLen := (versionAndLength &&& 0x0F).toNat * 4
    if len < 14 + ipHeaderLen then pure packet
    else do
      let protocol ← readAt packetData (14 + 9)
      let srcAddr ← rangeAt packetData (14 + 12) (14 + 12 + 4)
      let dstAddr ← rangeAt packetData (14 + 16) (14 + 16 + 4)
      let packet := { packet with
        protocol := protocol, sourceIp := dottedDecimal srcAddr, destIp := dottedDecimal dstAddr }
      let transportHeader := 14 + ipHeaderLen
      if protocol = IPPROTO_TCP ∧ 14 + ipHeaderLen + 20 ≤ len then do
        let sourcePort ← readWord packetData transportHeader
        let destPort ← readWord packetData (transportHeader + 2)
        pure { packet with sourcePort := sourcePort, destPort := destPort }
      else if protocol = IPPROTO_UDP ∧ 14 + ipHeaderLen + 8 ≤ len then do
        let sourcePort ← readWord packetData transportHeader
        let destPort ← readWord packetData (transportHeader + 2)
        pure { packet with sourcePort := sourcePort, destPort := destPort }
      else pure { packet with sourcePort := 0, destPort := 0 }

/-- `PacketCapture::Impl::capturePacket`, given what the members of the packet happen to hold before
they are assigned. -/
def capturePacket (u : Indeterminate) (outcome : PcapOutcome) : Checked PacketInfo :=
  let packet := PacketInfo.defaultInit u
  match outcome with
  | none => pure packet
  | some pcap => do
    let caplen := pcap.bytes.length
    let data ← rangeAt pcap.bytes 0 caplen
    let packet := { packet with
      timestamp := pcap.tvSec.toUInt64 * 1000000 + pcap.tvUsec.toUInt64
      size := pcap.len.toUInt64
      data := data }
    parsePacket packet pcap.bytes caplen

end PacketCapture

/-- `PacketCapture`, without the interface and the capture thread.  The handlers are of a type
`η`. -/
structure PacketCapture (η : Type*) where
  packetsCaptured : UInt64
  bytesCaptured : UInt64
  packetBuffer : CircularBuffer PacketInfo 1024
  handlers : List η

namespace PacketCapture

variable {η : Type*}

/-- The constructor. -/
def create : PacketCapture η where
  packetsCaptured := 0
  bytesCaptured := 0
  packetBuffer := .empty
  handlers := []

/-- `PacketCapture::registerHandler`. -/
def registerHandler (c : PacketCapture η) (handler : η) : PacketCapture η :=
  { c with handlers := c.handlers ++ [handler] }

/-- `PacketCapture::processPacket`: which handlers are called with which packet, in the order of the
calls, and the members afterwards. -/
def processPacket (c : PacketCapture η) (packet : PacketInfo) :
    List (η × PacketInfo) × PacketCapture η :=
  (c.handlers.map fun handler => (handler, packet),
    { c with
      packetsCaptured := c.packetsCaptured + 1
      bytesCaptured := c.bytesCaptured + packet.size
      packetBuffer := (c.packetBuffer.pushMove packet).2 })

/-- One pass of the loop of `PacketCapture::captureThreadFunc`, given what `pcap_next_ex` delivers
and what the members of the packet happen to hold: which handlers are called, and the members
afterwards. -/
def capturePass {η : Type} (c : PacketCapture η) (u : Indeterminate) (outcome : PcapOutcome) :
    Checked (List (η × PacketInfo) × PacketCapture η) := do
  let packet ← capturePacket u outcome
  if 0 < packet.size then pure (c.processPacket packet) else pure ([], c)

/-- `PacketCapture::captureThreadFunc`, for the passes that it makes before it finds the flag
cleared: what each of them does. -/
def captureThreadFunc {η : Type} (c : PacketCapture η) :
    List (Indeterminate × PcapOutcome) →
      Checked (List (List (η × PacketInfo) × PacketCapture η))
  | [] => pure []
  | (u, outcome) :: passes => do
    let pass ← c.capturePass u outcome
    let rest ← pass.2.captureThreadFunc passes
    pure (pass :: rest)

/-- A call that changes the capture. -/
inductive Call (η : Type*)
  | registerHandler (handler : η)
  | processPacket (packet : PacketInfo)

/-- The capture after a call. -/
def call (c : PacketCapture η) : Call η → PacketCapture η
  | .registerHandler handler => c.registerHandler handler
  | .processPacket packet => (c.processPacket packet).2

/-- The packets of a run, in the order of their calls. -/
def packetsOf (calls : List (Call η)) : List PacketInfo :=
  calls.filterMap fun
    | .processPacket packet => some packet
    | .registerHandler _ => none

end PacketCapture

end NetSentry
