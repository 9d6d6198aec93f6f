import NetSentry.Network.Equiv.EthernetFrame
import NetSentry.Network.Ipv4Frame

/-!
# Decoding captured frames

`capturePacket_captured`: the packet that the capture module makes of a well-formed frame has the
frame's addresses, ports, protocol, length and time, and the bytes of the whole frame as its data.
-/

namespace NetSentry

open Bytes

theorem Transport.sourcePort_segment (transport : Transport) (payload trailer : Bytes) :
    (transport.segment payload trailer).sourcePort = transport.sourcePort := by
  cases transport <;> rfl

theorem Transport.destPort_segment (transport : Transport) (payload trailer : Bytes) :
    (transport.segment payload trailer).destPort = transport.destPort := by
  cases transport <;> rfl

theorem Transport.protocol_segment (transport : Transport) (payload trailer : Bytes) :
    (transport.segment payload trailer).protocol = transport.protocol := by
  cases transport <;> rfl

/-- The length of what is captured behind the IPv4 header. -/
theorem Transport.length_encode_segment (transport : Transport) (payload trailer : Bytes) :
    (transport.segment payload trailer).encode.length
      = transport.headerLength + (payload.length + trailer.length) := by
  have hrest := transport.length_encodeRest payload.length
  have hheader := transport.eight_le_headerLength
  cases transport <;>
    simp only [segment, Segment.encode, List.length_append, length_encode16, hrest] <;> omega

namespace PacketCapture

theorem length_encode (frame : Ipv4Frame) : frame.encode.length
    = 34 + frame.options.1.length
      + (frame.transport.headerLength + (frame.payload.length + frame.trailer.length)) := by
  rw [Ipv4Frame.encode, EthernetFrame.length_encode, Ipv4Frame.toEthernetFrame,
    Transport.length_encode_segment]

/-- **The packet made of a frame** that is captured whole. -/
theorem capturePacket_captured (u : Indeterminate) (frame : Ipv4Frame) (tvSec tvUsec : Int64)
    (len : UInt32) :
    capturePacket u (some (frame.captured tvSec tvUsec len))
      = .ok (frame.packetInfo tvSec tvUsec len frame.encode) := by
  rw [capturePacket_some, Ipv4Frame.captured, Ipv4Frame.encode,
    EthernetFrame.parsePacket_encode, EthernetFrame.describe, Ipv4Frame.toEthernetFrame,
    Transport.sourcePort_segment, Transport.destPort_segment, Transport.protocol_segment]
  rfl

end PacketCapture

end NetSentry
