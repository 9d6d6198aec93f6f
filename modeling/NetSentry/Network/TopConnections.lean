import NetSentry.Lib.ByteOrder
import NetSentry.Lib.KeyedFold
import NetSentry.Lib.TopK
import NetSentry.Network.PacketAnalyzer

/-!
# `PacketAnalyzer::getTopConnections`

The connections with the most traffic.  The order in which a loop visits `connections_` and the sort
of the library are parameters.
-/

namespace NetSentry.PacketAnalyzer

open KeyedFold

/-- The bytes of a connection in both directions. -/
def traffic (entry : ConnectionKey × ConnectionStats) : UInt64 := carried entry.2

/-- `PacketAnalyzer::compareConnectionsByTraffic`. -/
def compareConnectionsByTraffic (a b : ConnectionKey × ConnectionStats) : Bool :=
  let aTraffic := traffic a
  let bTraffic := traffic b
  aTraffic > bTraffic

/-- `PacketAnalyzer::getTopConnections`. -/
def getTopConnections (a : PacketAnalyzer) (sorter : Sorter compareConnectionsByTraffic)
    (visit : VisitOrder a.connections) (limit : UInt64) : List (ConnectionKey × ConnectionStats) :=
  let result := sorter.sort (entries a.connections visit)
  if result.length > limit.toNat then result.take limit.toNat else result

end NetSentry.PacketAnalyzer
