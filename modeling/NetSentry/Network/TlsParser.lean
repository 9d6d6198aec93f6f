import NetSentry.Network.ProtocolData

/-!
# `TlsParser`

The TLS record parser: recognising a record (`isTlsPacket`), reading its header
(`parseTlsPacket`), finding the extension block of a client hello (`clientHelloServerName`) and
walking the extensions for a server name (`extractServerName`).  Every read of the packet is a
checked access.
-/

namespace NetSentry.TlsParser

open Checked

/-- `TlsParser::isTlsPacket`. -/
def isTlsPacket (packet : PacketInfo) : Checked Bool :=
  if packet.protocol ≠ IPPROTO_TCP then pure false
  else if packet.data.length < 5 then pure false
  else do
    let contentType ← readAt packet.data 0
    let version ← readWord packet.data 1
    pure ((20 ≤ contentType && contentType ≤ 23) &&
      ((0x0300 ≤ version && version ≤ 0x0304) || version == 0x0100))

/-- The loop of `TlsParser::extractServerName`: one pass for each extension header, up to the
declared end of the block. -/
def extensionLoop (data : Bytes) (endOffset pos : ℕ) : Checked (Option Bytes) :=
  if pos + 4 ≤ endOffset then do
    let extensionType ← readWord data pos
    let extensionLength ← readWord data (pos + 2)
    if extensionType = 0 ∧ pos + 4 + extensionLength.toNat ≤ endOffset ∧
        2 < extensionLength.toNat then do
      let listLength ← readWord data (pos + 4)
      if 3 < listLength.toNat ∧ pos + 4 + 2 + listLength.toNat ≤ endOffset then do
        let nameType ← readAt data (pos + 4 + 2)
        let nameLength ← readWord data (pos + 4 + 2 + 1)
        if nameType = 0 ∧ pos + 4 + 2 + 3 + nameLength.toNat ≤ endOffset then do
          let name ← rangeAt data (pos + 4 + 2 + 3) (pos + 4 + 2 + 3 + nameLength.toNat)
          pure (some name)
        -- `pos` has moved past the list and name headers, and the length is added on top of that
        else extensionLoop data endOffset (pos + 4 + 2 + 3 + extensionLength.toNat)
      else extensionLoop data endOffset (pos + 4 + 2 + extensionLength.toNat)
    else extensionLoop data endOffset (pos + 4 + extensionLength.toNat)
  else pure none
termination_by endOffset - pos

/-- `TlsParser::extractServerName`. -/
def extractServerName (data : Bytes) (offset length : ℕ) : Checked (Option Bytes) :=
  extensionLoop data (offset + length) offset

/-- The part of `TlsParser::parseTlsPacket` that looks for the extension block of a client hello of
more than 43 bytes: it steps over the session id, the cipher suites and the compression methods. -/
def clientHelloServerName (data : Bytes) : Checked (Option Bytes) := do
  let sessionIdLength ← readAt data 43
  let extensionsOffset := 44 + sessionIdLength.toNat
  if extensionsOffset + 2 < data.length then do
    let cipherSuitesLength ← readWord data extensionsOffset
    let extensionsOffset := extensionsOffset + (2 + cipherSuitesLength.toNat)
    if extensionsOffset + 1 < data.length then do
      let compressionMethodsLength ← readAt data extensionsOffset
      let extensionsOffset := extensionsOffset + (1 + compressionMethodsLength.toNat)
      if extensionsOffset + 2 < data.length then do
        let extensionsLength ← readWord data extensionsOffset
        extractServerName data (extensionsOffset + 2) extensionsLength.toNat
      else pure none
    else pure none
  else pure none

/-- `TlsParser::parseTlsPacket`. -/
def parseTlsPacket (data : Bytes) : Checked TlsData :=
  let tlsData : TlsData := { type := .tls }
  if data.length < 5 then pure tlsData
  else do
    let contentType ← readAt data 0
    let version ← readWord data 1
    let tlsData := { tlsData with
      contentType := contentType, version := version, isHandshake := contentType == 22 }
    if tlsData.isHandshake ∧ 6 ≤ data.length then do
      let handshakeType ← readAt data 5
      let tlsData := { tlsData with
        isClientHello := handshakeType == 1, isServerHello := handshakeType == 2 }
      if tlsData.isClientHello ∧ 43 < data.length then do
        let serverName ← clientHelloServerName data
        pure { tlsData with serverName := serverName }
      else pure tlsData
    else pure tlsData

/-- `TlsParser::parse`. -/
def parse (packet : PacketInfo) : Checked (Option ProtocolData) := do
  if ← isTlsPacket packet then do
    let tlsData ← parseTlsPacket packet.data
    pure (some (.tls tlsData))
  else pure none

end NetSentry.TlsParser
