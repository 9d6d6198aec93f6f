import NetSentry.Network.Equiv.PacketAnalyzer

/-!
# Host totals and connection totals

`host_traffic_stats_` is counted at the ends of the packets, `connections_` under their normalised
keys.  A key has the two ends of its packets, one way round or the other, so that in every state
what a host is counted to have sent and received is what the connections that end at it carry
(`hostTraffic_eq`).

* `ends_createConnectionKey`: the ends of a key.
* `carried_update`: a packet adds its size to what its connection carries.
* `agree_processPacket`: the totals agree after a packet when they agreed before.
-/

namespace NetSentry.PacketAnalyzer

open KeyedFold

/-- What the connection of a key carries; nothing where there is none. -/
def carriedBy (a : PacketAnalyzer) (key : ConnectionKey) : UInt64 :=
  (a.connections.lookup key).elim 0 carried

/-- The traffic that is counted for a host; none where it is not known. -/
def hostTraffic (a : PacketAnalyzer) (host : Bytes) : UInt64 :=
  (a.hostTrafficStats.lookup host).getD 0

/-- The weight of a connection in what is counted for a host: what it carries, once for each of its
ends. -/
def endsAt (host : Bytes) (key : ConnectionKey) (size : UInt64) : UInt64 :=
  (if key.sourceIp = host then size else 0) + (if key.destIp = host then size else 0)

/-- The two tables agree. -/
structure Agree (a : PacketAnalyzer) : Prop where
  host_eq : ∀ host,
    a.hostTraffic host = total (fun key stats => endsAt host key (carried stats)) a.connections
  sum_eq : total (fun _ size => size) a.hostTrafficStats
    = 2 * total (fun _ stats => carried stats) a.connections

/-! ### One packet -/

/-- A key has the ends of its packet, one way round or the other. -/
theorem ends_createConnectionKey (packet : PacketInfo) :
    let key := createConnectionKey packet
    (key.sourceIp = packet.sourceIp ∧ key.destIp = packet.destIp) ∨
      (key.sourceIp = packet.destIp ∧ key.destIp = packet.sourceIp) := by
  unfold createConnectionKey
  split_ifs
  · exact .inr ⟨rfl, rfl⟩
  · exact .inl ⟨rfl, rfl⟩

theorem endsAt_createConnectionKey (host : Bytes) (packet : PacketInfo) (size : UInt64) :
    endsAt host (createConnectionKey packet) size
      = (if packet.sourceIp = host then size else 0)
        + (if packet.destIp = host then size else 0) := by
  unfold endsAt
  rcases ends_createConnectionKey packet with ⟨hsource, hdest⟩ | ⟨hsource, hdest⟩
  · rw [hsource, hdest]
  · rw [hsource, hdest, add_comm]

theorem endsAt_add (host : Bytes) (key : ConnectionKey) (x y : UInt64) :
    endsAt host key (x + y) = endsAt host key x + endsAt host key y := by
  unfold endsAt
  split_ifs <;> grind

/-- **A packet adds its size** to what its connection carries, in one direction or the other. -/
theorem carried_update (parsers : List ProtocolParser) (o : Option ConnectionStats)
    (packet : PacketInfo) :
    carried (update parsers o packet) = o.elim 0 carried + packet.size := by
  obtain ⟨_, _, hsent, hreceived⟩ := counters_update parsers o packet
  have hold : o.elim 0 carried = o.elim 0 (·.bytesSent) + o.elim 0 (·.bytesReceived) := by
    cases o <;> rfl
  rw [carried, hsent, hreceived, hold]
  cases fromSource (createConnectionKey packet) packet
  · simp only [Bool.false_eq_true, if_false, if_true]
    grind
  · simp only [Bool.true_eq_false, if_false, if_true]
    grind

theorem lookup_addTraffic (traffic : Finmap fun _ : Bytes => UInt64) (site : Bytes) (size : UInt64)
    (host : Bytes) :
    ((addTraffic traffic site size).lookup host).getD 0
      = (traffic.lookup host).getD 0 + if site = host then size else 0 := by
  rw [addTraffic, lookup_insert_eq_ite]
  split_ifs with h
  · rw [h, Option.getD_some]
  · rw [add_zero]

theorem total_addTraffic (traffic : Finmap fun _ : Bytes => UInt64) (host : Bytes) (size : UInt64) :
    total (fun _ size => size) (addTraffic traffic host size)
      = total (fun _ size => size) traffic + size := by
  rw [addTraffic, total_insert, total_eq_add_erase traffic host]
  cases traffic.lookup host
  · exact add_right_comm _ _ _
  · exact add_right_comm _ _ _

/-- The totals agree after a packet when they agreed before. -/
theorem agree_processPacket {a : PacketAnalyzer} (h : Agree a) (packet : PacketInfo) :
    Agree (a.processPacket packet) where
  host_eq := by
    intro host
    have hadded : ∀ o, endsAt host (createConnectionKey packet)
          (carried (update a.protocolParsers o packet))
        = o.elim 0 (fun stats => endsAt host (createConnectionKey packet) (carried stats))
          + endsAt host (createConnectionKey packet) packet.size := by
      intro o
      rw [carried_update, endsAt_add]
      cases o with
      | none =>
        simp [endsAt]
      | some stats => rfl
    rw [connections_processPacket, total_accumulate hadded, ← h.host_eq host,
      endsAt_createConnectionKey, ← add_assoc]
    show ((addTraffic (addTraffic a.hostTrafficStats packet.sourceIp packet.size) packet.destIp
      packet.size).lookup host).getD 0 = _
    rw [lookup_addTraffic, lookup_addTraffic]
    rfl
  sum_eq := by
    rw [connections_processPacket, total_accumulate (carried_update a.protocolParsers · packet)]
    show total (fun _ size => size) (addTraffic (addTraffic a.hostTrafficStats packet.sourceIp
      packet.size) packet.destIp packet.size) = _
    rw [total_addTraffic, total_addTraffic, h.sum_eq]
    grind

/-! ### Runs -/

theorem agree_create (parsers : List ProtocolParser) : Agree (create parsers) where
  host_eq := fun _ => total_empty.symm
  sum_eq := by
    show total _ ∅ = 2 * total _ ∅
    rw [total_empty, total_empty, mul_zero]

theorem agree_call {a : PacketAnalyzer} (h : Agree a) (c : Call) : Agree (a.call c) := by
  cases c with
  | processPacket packet => exact agree_processPacket h packet
  | reset =>
    -- both tables are emptied
    exact ⟨(agree_create a.protocolParsers).host_eq, (agree_create a.protocolParsers).sum_eq⟩

theorem agree_foldl_call {a : PacketAnalyzer} (h : Agree a) (calls : List Call) :
    Agree (calls.foldl call a) := by
  induction calls generalizing a with
  | nil => exact h
  | cons c calls ih => exact ih (agree_call h c)

/-- **Host totals and connection totals agree** after every run.  What is counted for a host is, in
64-bit arithmetic, what the connections with this source carry and what those with this destination
carry, and the hosts have twice the traffic of the connections. -/
theorem hostTraffic_eq (parsers : List ProtocolParser) (calls : List Call) :
    let a := calls.foldl call (create parsers)
    (∀ host, a.hostTraffic host
      = (∑ key ∈ a.connections.keys with key.sourceIp = host, a.carriedBy key)
        + ∑ key ∈ a.connections.keys with key.destIp = host, a.carriedBy key) ∧
    ∑ host ∈ a.hostTrafficStats.keys, a.hostTraffic host
      = 2 * ∑ key ∈ a.connections.keys, a.carriedBy key := by
  intro a
  have h : Agree a := agree_foldl_call (agree_create parsers) calls
  constructor
  · intro host
    rw [h.host_eq, total, Finset.sum_filter, Finset.sum_filter, ← Finset.sum_add_distrib]
    apply Finset.sum_congr rfl
    intro key _
    unfold carriedBy
    cases a.connections.lookup key with
    | none => simp
    | some stats => rfl
  · have hsum := h.sum_eq
    rw [total, total] at hsum
    calc ∑ host ∈ a.hostTrafficStats.keys, a.hostTraffic host
        = ∑ host ∈ a.hostTrafficStats.keys, (a.hostTrafficStats.lookup host).elim 0 id := by
          apply Finset.sum_congr rfl
          intro host _
          unfold hostTraffic
          cases a.hostTrafficStats.lookup host <;> rfl
      _ = 2 * ∑ key ∈ a.connections.keys, a.carriedBy key := hsum

end NetSentry.PacketAnalyzer
