import NetSentry.Network.PacketAnalyzer

/-!
# `ConnectionRecord` and the connections of a `Database`

The implementations of `Database` are not part of the repository.  A `ConnectionDatabase` is any
implementation whose `updateConnection` replaces the record stored for the record's five-tuple and
no other.
-/

namespace NetSentry

/-- `ConnectionRecord`. -/
structure ConnectionRecord where
  sourceIp : Bytes
  sourcePort : UInt16
  destIp : Bytes
  destPort : UInt16
  protocol : UInt8
  bytesSent : UInt64
  bytesReceived : UInt64
  packetsSent : UInt64
  packetsReceived : UInt64
  firstSeen : Int64
  lastSeen : Int64
deriving DecidableEq

/-- The five-tuple a record is about. -/
def ConnectionRecord.key (record : ConnectionRecord) : ConnectionKey where
  sourceIp := record.sourceIp
  destIp := record.destIp
  sourcePort := record.sourcePort
  destPort := record.destPort
  protocol := record.protocol

/-- The connections of a database whose states are the values of `δ`. -/
structure ConnectionDatabase (δ : Type) where
  updateConnection : δ → ConnectionRecord → δ
  stored : δ → ConnectionKey → Option ConnectionRecord
  stored_updateConnection : ∀ d record key, stored (updateConnection d record) key
    = if record.key = key then some record else stored d key

/-- A database that keeps its connections in a map. -/
def mapDatabase : ConnectionDatabase (Finmap fun _ : ConnectionKey => ConnectionRecord) where
  updateConnection d record := d.insert record.key record
  stored d key := d.lookup key
  stored_updateConnection d record key := by
    split_ifs with h
    · rw [← h, Finmap.lookup_insert]
    · exact Finmap.lookup_insert_of_ne d (Ne.symm h)

end NetSentry
