import Mathlib.Data.Finmap
import NetSentry.Lib.Checked
import NetSentry.Network.PacketInfo

/-!
# What the protocol parsers produce

The data each protocol parser reads from a packet, and the parser interface.
-/

namespace NetSentry

/-- `ProtocolType`. -/
inductive ProtocolType
  | unknown
  | tcp
  | udp
  | icmp
  | http
  | dns
  | tls
  | smtp
deriving DecidableEq

/-- `HttpData`. -/
structure HttpData where
  type : ProtocolType := .unknown
  method : Bytes := []
  uri : Bytes := []
  httpVersion : Bytes := []
  headers : Finmap fun _ : Bytes => Bytes := ∅
  isRequest : Bool := true
  statusCode : ℤ := 0
deriving DecidableEq

/-- `DnsData`. -/
structure DnsData where
  type : ProtocolType := .unknown
  transactionId : UInt16 := 0
  isQuery : Bool := true
  questions : List Bytes := []
  answers : List Bytes := []
deriving DecidableEq

/-- `TlsData`. -/
structure TlsData where
  type : ProtocolType := .unknown
  contentType : UInt8 := 0
  version : UInt16 := 0
  isHandshake : Bool := false
  isClientHello : Bool := false
  isServerHello : Bool := false
  serverName : Option Bytes := none
deriving DecidableEq

/-- `ProtocolData`: an object of one of the derived classes. -/
inductive ProtocolData
  | http (data : HttpData)
  | dns (data : DnsData)
  | tls (data : TlsData)
deriving DecidableEq

/-- The `type` member of the base class. -/
def ProtocolData.type : ProtocolData → ProtocolType
  | .http data => data.type
  | .dns data => data.type
  | .tls data => data.type

/-- `ProtocolParser::parse`: the data read from a packet, or nothing where the packet is not of the
parser's protocol. -/
abbrev ProtocolParser := PacketInfo → Option ProtocolData

end NetSentry
