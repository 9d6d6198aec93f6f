import NetSentry.Core.CircularBuffer
import NetSentry.Network.ProtocolParserFactory

/-!
# `PacketAnalyzer`

The connection table: `createConnectionKey` names the conversation a packet belongs to,
`processPacket` counts it on the side it was sent from and asks the protocol parsers until one
recognises the traffic.  Every public operation holds the analyzer's mutex throughout, so that a run
is a list of calls.
-/

namespace NetSentry

/-- `ConnectionKey`. -/
structure ConnectionKey where
  sourceIp : Bytes
  destIp : Bytes
  sourcePort : UInt16
  destPort : UInt16
  protocol : UInt8
deriving DecidableEq

/-- `ConnectionStats`. -/
structure ConnectionStats where
  packetsSent : UInt64 := 0
  packetsReceived : UInt64 := 0
  bytesSent : UInt64 := 0
  bytesReceived : UInt64 := 0
  firstSeen : UInt64 := 0
  lastSeen : UInt64 := 0
  protocolType : Option ProtocolType := none
  protocolData : Option ProtocolData := none
deriving DecidableEq

/-- `PacketAnalyzer`. -/
structure PacketAnalyzer where
  connections : Finmap fun _ : ConnectionKey => ConnectionStats
  hostTrafficStats : Finmap fun _ : Bytes => UInt64
  recentPackets : CircularBuffer PacketInfo 1000
  protocolParsers : List ProtocolParser

namespace PacketAnalyzer

/-- What a connection carries, in both directions. -/
def carried (stats : ConnectionStats) : UInt64 := stats.bytesSent + stats.bytesReceived

/-- The constructor, with the parsers the factory makes. -/
def create (protocolParsers : List ProtocolParser) : PacketAnalyzer where
  connections := ∅
  hostTrafficStats := ∅
  recentPackets := .empty
  protocolParsers := protocolParsers

/-- `PacketAnalyzer::createConnectionKey`.  Strings are compared byte by byte. -/
def createConnectionKey (packet : PacketInfo) (normalize : Bool := true) : ConnectionKey :=
  if normalize ∧ (packet.sourceIp > packet.destIp ∨
      (packet.sourceIp = packet.destIp ∧ packet.sourcePort > packet.destPort)) then
    { sourceIp := packet.destIp
      destIp := packet.sourceIp
      sourcePort := packet.destPort
      destPort := packet.sourcePort
      protocol := packet.protocol }
  else
    { sourceIp := packet.sourceIp
      destIp := packet.destIp
      sourcePort := packet.sourcePort
      destPort := packet.destPort
      protocol := packet.protocol }

/-- `PacketAnalyzer::analyzeProtocol`: the first parser that returns data names the protocol. -/
def analyzeProtocol (packet : PacketInfo) (stats : ConnectionStats) :
    List ProtocolParser → ConnectionStats
  | [] => stats
  | parser :: parsers =>
    match parser packet with
    | some protocolData =>
      { stats with protocolType := some protocolData.type, protocolData := some protocolData }
    | none => analyzeProtocol packet stats parsers

/-- The direction test of `processPacket`: the packet comes from the key's source endpoint. -/
def fromSource (key : ConnectionKey) (packet : PacketInfo) : Bool :=
  packet.sourceIp = key.sourceIp && packet.sourcePort = key.sourcePort

/-- The statistics `processPacket` makes for the first packet of a connection. -/
def newStats (parsers : List ProtocolParser) (key : ConnectionKey) (packet : PacketInfo) :
    ConnectionStats :=
  let stats : ConnectionStats := { firstSeen := packet.timestamp, lastSeen := packet.timestamp }
  let stats :=
    if fromSource key packet then
      { stats with
        packetsSent := 1, packetsReceived := 0, bytesSent := packet.size, bytesReceived := 0 }
    else
      { stats with
        packetsSent := 0, packetsReceived := 1, bytesSent := 0, bytesReceived := packet.size }
  analyzeProtocol packet stats parsers

/-- The statistics `processPacket` leaves of a connection after a later packet. -/
def nextStats (parsers : List ProtocolParser) (key : ConnectionKey) (packet : PacketInfo)
    (stats : ConnectionStats) : ConnectionStats :=
  let stats := { stats with lastSeen := packet.timestamp }
  let stats :=
    if fromSource key packet then
      { stats with
        packetsSent := stats.packetsSent + 1, bytesSent := stats.bytesSent + packet.size }
    else
      { stats with
        packetsReceived := stats.packetsReceived + 1
        bytesReceived := stats.bytesReceived + packet.size }
  if stats.protocolType = none then analyzeProtocol packet stats parsers else stats

/-- `host_traffic_stats_[host] += size`. -/
def addTraffic (traffic : Finmap fun _ : Bytes => UInt64) (host : Bytes) (size : UInt64) :
    Finmap fun _ : Bytes => UInt64 :=
  traffic.insert host ((traffic.lookup host).getD 0 + size)

/-- `PacketAnalyzer::processPacket`. -/
def processPacket (a : PacketAnalyzer) (packet : PacketInfo) : PacketAnalyzer :=
  let key := createConnectionKey packet
  let stats :=
    match a.connections.lookup key with
    | none => newStats a.protocolParsers key packet
    | some stats => nextStats a.protocolParsers key packet stats
  { a with
    recentPackets := (a.recentPackets.push packet).2
    connections := a.connections.insert key stats
    hostTrafficStats :=
      addTraffic (addTraffic a.hostTrafficStats packet.sourceIp packet.size) packet.destIp
        packet.size }

/-- `PacketAnalyzer::getConnectionStats`. -/
def getConnectionStats (a : PacketAnalyzer) (key : ConnectionKey) : Option ConnectionStats :=
  a.connections.lookup key

/-- `PacketAnalyzer::reset`. -/
def reset (a : PacketAnalyzer) : PacketAnalyzer :=
  { a with connections := ∅, hostTrafficStats := ∅ }

/-- A call that changes the analyzer. -/
inductive Call
  | processPacket (packet : PacketInfo)
  | reset

/-- The analyzer after a call. -/
def call (a : PacketAnalyzer) : Call → PacketAnalyzer
  | .processPacket packet => a.processPacket packet
  | .reset => a.reset

/-- The packets of a run since its last reset, in the order of their calls. -/
def sinceReset (calls : List Call) : List PacketInfo :=
  calls.foldl (fun packets call =>
    match call with
    | .processPacket packet => packets ++ [packet]
    | .reset => []) []

end PacketAnalyzer

end NetSentry
