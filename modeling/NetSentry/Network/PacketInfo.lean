import NetSentry.Lib.Numeral

/-!
# Captured packets

`PacketInfo` is what the capture module hands to everything downstream: the bytes it captured, the
length of the packet on the wire, the two ends, the IP protocol and the capture time.
-/

namespace NetSentry

/-- `PacketInfo`. -/
structure PacketInfo where
  data : Bytes
  size : UInt64
  sourceIp : Bytes
  destIp : Bytes
  sourcePort : UInt16
  destPort : UInt16
  protocol : UInt8
  timestamp : UInt64
deriving DecidableEq

/-- `IPPROTO_TCP`. -/
def IPPROTO_TCP : UInt8 := 6

/-- `IPPROTO_UDP`. -/
def IPPROTO_UDP : UInt8 := 17

/-- What the members of a `PacketInfo` without an initialiser happen to hold before they are
assigned. -/
structure Indeterminate where
  size : UInt64
  sourcePort : UInt16
  destPort : UInt16
  protocol : UInt8
  timestamp : UInt64

/-- A default-initialised `PacketInfo`: the vector and the strings are empty, the integers are
indeterminate. -/
def PacketInfo.defaultInit (u : Indeterminate) : PacketInfo where
  data := []
  size := u.size
  sourceIp := []
  destIp := []
  sourcePort := u.sourcePort
  destPort := u.destPort
  protocol := u.protocol
  timestamp := u.timestamp

end NetSentry
