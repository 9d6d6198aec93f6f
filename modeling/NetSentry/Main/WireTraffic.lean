import Mathlib.Algebra.BigOperators.Group.List.Basic
import Mathlib.Data.Sym.Sym2
import NetSentry.Lib.Json
import NetSentry.Main.PacketTask
import NetSentry.Network.EthernetFrame
import NetSentry.Network.PacketCapture

/-!
# The traffic on the wire

What an observer of the wire would report of the frames that pass, in its own words.  A `Station` is
an IPv4 address and a port; a `Flow` is a protocol and two stations, of which one sends; a
`Sighting` is a frame as pcap delivers it.  `Lists` is what is expected of a list of the flows with
the most traffic, and `flowJson` is the object that stands for one of them.
-/

namespace NetSentry

open Bytes PacketCapture Json

/-- An IPv4 address and a port. -/
structure Station where
  addr : Octets 4
  port : UInt16
deriving DecidableEq

/-- The text that the API gives of a station. -/
def Station.text (station : Station) : Bytes :=
  dottedDecimal station.addr.1 ++ ascii ":" ++ decimal station.port.toNat

/-- A protocol, the station that sends and the one that receives. -/
structure Flow where
  protocol : UInt8
  source : Station
  dest : Station
deriving DecidableEq

namespace Flow

/-- The way back. -/
def reverse (flow : Flow) : Flow := ⟨flow.protocol, flow.dest, flow.source⟩

/-- Both ways are one conversation. -/
def conversation (flow : Flow) : UInt8 × Sym2 Station := (flow.protocol, s(flow.source, flow.dest))

end Flow

/-- A frame of a positive length as pcap delivers it, and what the members of the packet that is
made of it happen to hold. -/
structure Sighting where
  frame : EthernetFrame
  tvSec : Int64
  tvUsec : Int64
  len : UInt32
  stale : Indeterminate
  positive : len ≠ 0

namespace Sighting

/-- What pcap delivers. -/
def pcap (s : Sighting) : PcapPacket where
  tvSec := s.tvSec
  tvUsec := s.tvUsec
  len := s.len
  bytes := s.frame.encode

/-- What the capture loop finds. -/
def pass (s : Sighting) : Indeterminate × PcapOutcome := (s.stale, some s.pcap)

/-- The flow that the frame belongs to. -/
def flow (s : Sighting) : Flow where
  protocol := s.frame.segment.protocol
  source := ⟨s.frame.sourceAddr, s.frame.segment.sourcePort⟩
  dest := ⟨s.frame.destAddr, s.frame.segment.destPort⟩

end Sighting

/-- The frames that the source of the flow has sent. -/
def sentIn (sightings : List Sighting) (flow : Flow) : List Sighting :=
  sightings.filter (·.flow = flow)

/-- The frames that the source of the flow has received.  One that a station sends to itself is only
sent. -/
def receivedIn (sightings : List Sighting) (flow : Flow) : List Sighting :=
  sightings.filter fun s => s.flow = flow.reverse ∧ flow.reverse ≠ flow

/-- The bytes on the wire, as 64 bits count them. -/
def bytesOf (sightings : List Sighting) : ℕ := (sightings.map (·.len.toNat)).sum % 2 ^ 64

/-- The bytes of a conversation, as 64 bits count them. -/
def bytesBetween (sightings : List Sighting) (flow : Flow) : ℕ :=
  bytesOf (sightings.filter (·.flow.conversation = flow.conversation))

/-- The object for a flow, with what its source has sent and received. -/
def flowJson (sightings : List Sighting) (flow : Flow) : Json :=
  .object [(ascii "source", .string flow.source.text),
    (ascii "destination", .string flow.dest.text),
    (ascii "protocol", .number flow.protocol.toNat),
    (ascii "bytes_sent", .number (bytesOf (sentIn sightings flow))),
    (ascii "bytes_received", .number (bytesOf (receivedIn sightings flow))),
    (ascii "packets_sent", .number ((sentIn sightings flow).length % 2 ^ 64 : ℕ)),
    (ascii "packets_received", .number ((receivedIn sightings flow).length % 2 ^ 64 : ℕ))]

/-- The list has one flow of each conversation that was sighted, as many as the limit allows, those
with the most bytes first, and leaves out none with more. -/
structure Lists (sightings : List Sighting) (limit : ℕ) (listed : List Flow) : Prop where
  length : listed.length = min limit (sightings.map (·.flow.conversation)).toFinset.card
  sighted : ∀ flow ∈ listed, ∃ s ∈ sightings, s.flow.conversation = flow.conversation
  distinct : (listed.map Flow.conversation).Nodup
  ordered : listed.Pairwise fun flow next =>
    bytesBetween sightings next ≤ bytesBetween sightings flow
  leftOut : ∀ s ∈ sightings, s.flow.conversation ∉ listed.map Flow.conversation →
    ∀ flow ∈ listed, bytesBetween sightings s.flow ≤ bytesBetween sightings flow

/-- The packet whose capture the step is. -/
def PacketTask.captured {n : ℕ} : PacketTask.Action n → Option PacketInfo
  | .enqueue packet => some packet
  | _ => none

end NetSentry
