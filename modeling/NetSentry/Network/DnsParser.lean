import NetSentry.Network.ProtocolData

/-!
# `DnsParser`

Recognising DNS traffic by its port (`isDnsPacket`) and reading the first words of the header
(`parseDnsPacket`).
-/

namespace NetSentry.DnsParser

open Checked

/-- `DnsParser::isDnsPacket`. -/
def isDnsPacket (packet : PacketInfo) : Bool :=
  (packet.protocol = IPPROTO_UDP && (packet.sourcePort = 53 || packet.destPort = 53)) ||
    (packet.protocol = IPPROTO_TCP && (packet.sourcePort = 53 || packet.destPort = 53))

/-- `DnsParser::parseDnsPacket`.  The question and answer counts are read and not used. -/
def parseDnsPacket (data : Bytes) : Checked DnsData := do
  let dnsData : DnsData := { type := .dns }
  if data.length < 12 then pure dnsData
  else do
    let transactionId ← readWord data 0
    let flags ← readWord data 2
    let _questions ← readWord data 4
    let _answers ← readWord data 6
    pure { dnsData with transactionId := transactionId, isQuery := flags &&& 0x8000 = 0 }

/-- `DnsParser::parse`. -/
def parse (packet : PacketInfo) : Checked (Option ProtocolData) :=
  if !isDnsPacket packet then pure none
  else do
    let dnsData ← parseDnsPacket packet.data
    pure (some (.dns dnsData))

end NetSentry.DnsParser
