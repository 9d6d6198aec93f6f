import Mathlib.Data.UInt
import NetSentry.Lib.KeyedFold
import NetSentry.Network.PacketAnalyzer

/-!
# The connection counters

`counters_eq`: whatever the order in which the calls of a run are made, the analyzer holds one entry
for each canonical key of the packets since the last reset, and the entry of a key counts the
packets of that key and their sizes, those sent from the key's source endpoint on one side and all
the others on the other side.

* `connections_processPacket`: a packet updates the statistics of its own key and of no other.
* `counters_update`: what one packet adds to the four counters, whether it is the first or not.
* `connections_foldl_call`: after any run the table is what the packets since the last reset make of
  an empty one.
-/

namespace NetSentry.PacketAnalyzer

open KeyedFold

/-! ### The connection table as an accumulation -/

/-- What one packet makes of the statistics of its connection. -/
def update (parsers : List ProtocolParser) (stats : Option ConnectionStats) (packet : PacketInfo) :
    ConnectionStats :=
  stats.elim (newStats parsers (createConnectionKey packet) packet)
    (nextStats parsers (createConnectionKey packet) packet)

theorem connections_processPacket (a : PacketAnalyzer) (packet : PacketInfo) :
    (a.processPacket packet).connections
      = accumulate (createConnectionKey ·) (update a.protocolParsers) a.connections packet := by
  unfold processPacket accumulate update
  dsimp only
  cases a.connections.lookup (createConnectionKey packet) <;> rfl

@[simp] theorem protocolParsers_call (a : PacketAnalyzer) (c : Call) :
    (a.call c).protocolParsers = a.protocolParsers := by
  cases c <;> rfl

@[simp] theorem protocolParsers_foldl_call (a : PacketAnalyzer) (calls : List Call) :
    (calls.foldl call a).protocolParsers = a.protocolParsers := by
  induction calls generalizing a with
  | nil => rfl
  | cons c calls ih => rw [List.foldl_cons, ih, protocolParsers_call]

theorem sinceReset_append_processPacket (calls : List Call) (packet : PacketInfo) :
    sinceReset (calls ++ [.processPacket packet]) = sinceReset calls ++ [packet] := by
  simp [sinceReset]

theorem sinceReset_append_reset (calls : List Call) : sinceReset (calls ++ [.reset]) = [] := by
  simp [sinceReset]

/-- **The table after a run** holds what the packets since the last reset make of an empty one. -/
theorem connections_foldl_call (parsers : List ProtocolParser) (calls : List Call) :
    (calls.foldl call (create parsers)).connections
      = (sinceReset calls).foldl (accumulate (createConnectionKey ·) (update parsers)) ∅ := by
  induction calls using List.reverseRecOn with
  | nil => rfl
  | append_singleton calls c ih =>
    -- the last call adds its packet, or starts over
    rw [List.foldl_append]
    cases c with
    | processPacket packet =>
      have hparsers : (calls.foldl call (create parsers)).protocolParsers = parsers :=
        protocolParsers_foldl_call _ _
      rw [sinceReset_append_processPacket, List.foldl_append, ← ih]
      exact (connections_processPacket _ packet).trans (by rw [hparsers]; rfl)
    | reset =>
      rw [sinceReset_append_reset]
      rfl

/-- The packets of a connection, in the order of their calls. -/
def ofConnection (key : ConnectionKey) (packets : List PacketInfo) : List PacketInfo :=
  packets.filter (createConnectionKey · = key)

/-- The statistics of a connection are what its own packets make of them. -/
theorem lookup_connections (parsers : List ProtocolParser) (calls : List Call)
    (key : ConnectionKey) :
    (calls.foldl call (create parsers)).connections.lookup key
      = (ofConnection key (sinceReset calls)).foldl (fun o p => some (update parsers o p))
          none := by
  rw [connections_foldl_call, lookup_foldl_accumulate, Finmap.lookup_empty]
  rfl

/-! ### The counters -/

/-- Asking the parsers changes nothing but the protocol. -/
theorem analyzeProtocol_eq (packet : PacketInfo) (stats : ConnectionStats)
    (parsers : List ProtocolParser) :
    ∃ protocolType protocolData, analyzeProtocol packet stats parsers
      = { stats with protocolType := protocolType, protocolData := protocolData } := by
  induction parsers with
  | nil => exact ⟨stats.protocolType, stats.protocolData, rfl⟩
  | cons parser parsers ih =>
    rw [analyzeProtocol]
    cases parser packet with
    | some protocolData => exact ⟨_, _, rfl⟩
    | none => exact ih

theorem analyzeUnknown_eq (packet : PacketInfo) (stats : ConnectionStats)
    (parsers : List ProtocolParser) :
    ∃ protocolType protocolData,
      (if stats.protocolType = none then analyzeProtocol packet stats parsers else stats)
        = { stats with protocolType := protocolType, protocolData := protocolData } := by
  split_ifs with hunknown
  · exact analyzeProtocol_eq packet stats parsers
  · exact ⟨stats.protocolType, stats.protocolData, rfl⟩

/-- The first packet of a connection. -/
theorem newStats_eq (parsers : List ProtocolParser) (key : ConnectionKey) (packet : PacketInfo) :
    ∃ protocolType protocolData, newStats parsers key packet =
      { packetsSent := if fromSource key packet = true then 1 else 0
        packetsReceived := if fromSource key packet = false then 1 else 0
        bytesSent := if fromSource key packet = true then packet.size else 0
        bytesReceived := if fromSource key packet = false then packet.size else 0
        firstSeen := packet.timestamp
        lastSeen := packet.timestamp
        protocolType := protocolType
        protocolData := protocolData } := by
  unfold newStats
  dsimp only
  obtain ⟨protocolType, protocolData, hanalyze⟩ := analyzeProtocol_eq packet _ parsers
  refine ⟨protocolType, protocolData, ?_⟩
  rw [hanalyze]
  cases fromSource key packet <;> rfl

/-- A later packet of a connection. -/
theorem nextStats_eq (parsers : List ProtocolParser) (key : ConnectionKey) (packet : PacketInfo)
    (stats : ConnectionStats) :
    ∃ protocolType protocolData, nextStats parsers key packet stats =
      { packetsSent := stats.packetsSent + if fromSource key packet = true then 1 else 0
        packetsReceived := stats.packetsReceived + if fromSource key packet = false then 1 else 0
        bytesSent := stats.bytesSent + if fromSource key packet = true then packet.size else 0
        bytesReceived :=
          stats.bytesReceived + if fromSource key packet = false then packet.size else 0
        firstSeen := stats.firstSeen
        lastSeen := packet.timestamp
        protocolType := protocolType
        protocolData := protocolData } := by
  unfold nextStats
  dsimp only
  obtain ⟨protocolType, protocolData, hanalyze⟩ := analyzeUnknown_eq packet _ parsers
  refine ⟨protocolType, protocolData, ?_⟩
  rw [hanalyze]
  cases fromSource key packet <;> simp

/-- **What one packet adds** to the counters of its connection: one packet and its size, to the side
it was sent from. -/
theorem counters_update (parsers : List ProtocolParser) (o : Option ConnectionStats)
    (packet : PacketInfo) :
    let sent := fromSource (createConnectionKey packet) packet
    let stats := update parsers o packet
    stats.packetsSent = o.elim 0 (·.packetsSent) + (if sent = true then 1 else 0) ∧
    stats.packetsReceived = o.elim 0 (·.packetsReceived) + (if sent = false then 1 else 0) ∧
    stats.bytesSent = o.elim 0 (·.bytesSent) + (if sent = true then packet.size else 0) ∧
    stats.bytesReceived
      = o.elim 0 (·.bytesReceived) + (if sent = false then packet.size else 0) := by
  intro sent stats
  cases o with
  | none =>
    obtain ⟨_, _, hnew⟩ := newStats_eq parsers (createConnectionKey packet) packet
    rw [show stats = _ from hnew]
    simp only [Option.elim_none, zero_add]
    exact ⟨rfl, rfl, rfl, rfl⟩
  | some old =>
    obtain ⟨_, _, hnext⟩ := nextStats_eq parsers (createConnectionKey packet) packet old
    rw [show stats = _ from hnext]
    exact ⟨rfl, rfl, rfl, rfl⟩

/-! ### Sums -/

theorem toNat_sum (xs : List UInt64) : xs.sum.toNat = (xs.map UInt64.toNat).sum % 2 ^ 64 := by
  induction xs with
  | nil => rfl
  | cons x xs ih => rw [List.sum_cons, UInt64.toNat_add, ih, List.map_cons, List.sum_cons,
      Nat.add_mod_mod]

/-- The packets of a connection that come from its source endpoint, or all the others. -/
def packetsOf (k : ConnectionKey) (sent : Bool) (packets : List PacketInfo) : List PacketInfo :=
  packets.filter fun packet => createConnectionKey packet = k ∧ fromSource k packet = sent

theorem sum_packetsOf (k : ConnectionKey) (sent : Bool) (size : PacketInfo → UInt64)
    (packets : List PacketInfo) :
    ((packets.filter (createConnectionKey · = k)).map fun packet =>
        if fromSource (createConnectionKey packet) packet = sent then size packet else 0).sum
      = ((packetsOf k sent packets).map size).sum := by
  induction packets with
  | nil => rfl
  | cons packet packets ih =>
    unfold packetsOf at ih ⊢
    by_cases hkey : createConnectionKey packet = k
    · by_cases hsent : fromSource k packet = sent
      · simp [hkey, hsent, ih]
      · simp [hkey, hsent, ih]
    · simp [hkey, ih]

/-- A counter to which every packet of one direction adds its weight holds the sum of the
weights. -/
theorem counter_eq_sum {parsers : List ProtocolParser} {calls : List Call}
    {packets : List PacketInfo} (hperm : packets.Perm (sinceReset calls))
    {counter : ConnectionStats → UInt64} {sent : Bool} {weight : PacketInfo → UInt64}
    (hcounter : ∀ o packet, counter (update parsers o packet) = o.elim 0 counter
      + if fromSource (createConnectionKey packet) packet = sent then weight packet else 0)
    {k : ConnectionKey} {stats : ConnectionStats}
    (hstats : (calls.foldl call (create parsers)).connections.lookup k = some stats) :
    counter stats = ((packetsOf k sent packets).map weight).sum := by
  set connections := (calls.foldl call (create parsers)).connections with hconnections
  have hsum : (connections.lookup k).elim 0 counter
      = ((∅ : Finmap fun _ : ConnectionKey => ConnectionStats).lookup k).elim 0 counter
        + (((sinceReset calls).filter (createConnectionKey · = k)).map fun packet =>
          if fromSource (createConnectionKey packet) packet = sent
            then weight packet else 0).sum := by
    rw [hconnections, connections_foldl_call]
    exact measure_foldl_accumulate (fun o packet _ => hcounter o packet) (sinceReset calls)
  rw [hstats, Finmap.lookup_empty, Option.elim_some, Option.elim_none,
    zero_add, sum_packetsOf] at hsum
  have hpacketsOf : (packetsOf k sent packets).Perm (packetsOf k sent (sinceReset calls)) :=
    hperm.filter _
  rw [hsum, (hpacketsOf.map weight).sum_eq]

/-- **The accounting is exact.** -/
theorem counters_eq (parsers : List ProtocolParser) {calls : List Call} {packets : List PacketInfo}
    (hperm : packets.Perm (sinceReset calls)) :
    let connections := (calls.foldl call (create parsers)).connections
    connections.keys = (packets.map (createConnectionKey ·)).toFinset ∧
    ∀ k stats, connections.lookup k = some stats →
      stats.packetsSent.toNat = (packetsOf k true packets).length % 2 ^ 64 ∧
      stats.packetsReceived.toNat = (packetsOf k false packets).length % 2 ^ 64 ∧
      stats.bytesSent.toNat = ((packetsOf k true packets).map (·.size.toNat)).sum % 2 ^ 64 ∧
      stats.bytesReceived.toNat
        = ((packetsOf k false packets).map (·.size.toNat)).sum % 2 ^ 64 := by
  intro connections
  -- a sum of 64-bit weights is the sum of their values modulo `2 ^ 64`
  have hcount : ∀ ps : List PacketInfo, (ps.map fun _ => (1 : UInt64)).sum.toNat
      = ps.length % 2 ^ 64 := by
    intro ps
    rw [toNat_sum, List.map_map, Function.comp_def, List.map_const', List.sum_replicate]
    simp
  have hsize : ∀ ps : List PacketInfo, (ps.map PacketInfo.size).sum.toNat
      = (ps.map (·.size.toNat)).sum % 2 ^ 64 := by
    intro ps
    rw [toNat_sum, List.map_map, Function.comp_def]
  refine ⟨?_, fun k stats hstats => ⟨?_, ?_, ?_, ?_⟩⟩
  · rw [show connections = _ from connections_foldl_call parsers calls, keys_foldl_accumulate,
      Finmap.keys_empty, Finset.empty_union]
    exact List.toFinset_eq_of_perm _ _ (hperm.map _).symm
  · rw [← hcount, ← counter_eq_sum hperm (fun o p => (counters_update parsers o p).1) hstats]
  · rw [← hcount, ← counter_eq_sum hperm (fun o p => (counters_update parsers o p).2.1) hstats]
  · rw [← hsize, ← counter_eq_sum hperm (fun o p => (counters_update parsers o p).2.2.1) hstats]
  · rw [← hsize, ← counter_eq_sum hperm (fun o p => (counters_update parsers o p).2.2.2) hstats]

/-- A UDP packet from one end of a conversation to the other one, `60` bytes long. -/
def query : PacketInfo where
  data := []
  size := 60
  sourceIp := Bytes.ascii "10.0.0.9"
  destIp := Bytes.ascii "10.0.0.1"
  sourcePort := 40000
  destPort := 53
  protocol := IPPROTO_UDP
  timestamp := 1

/-- The answer, `90` bytes long. -/
def answer : PacketInfo where
  data := []
  size := 90
  sourceIp := Bytes.ascii "10.0.0.1"
  destIp := Bytes.ascii "10.0.0.9"
  sourcePort := 53
  destPort := 40000
  protocol := IPPROTO_UDP
  timestamp := 2

theorem counters_eq_query_answer :
    let calls : List Call :=
      [.processPacket query, .reset, .processPacket answer, .processPacket query]
    let connections := (calls.foldl call (create [])).connections
    connections.keys = {createConnectionKey query} ∧
    ∀ stats, connections.lookup (createConnectionKey query) = some stats →
      stats.packetsSent.toNat = 1 ∧ stats.packetsReceived.toNat = 1 ∧
      stats.bytesSent.toNat = 90 ∧ stats.bytesReceived.toNat = 60 := by
  intro calls connections
  have hperm : [query, answer].Perm (sinceReset calls) := List.Perm.swap _ _ _
  have heq := counters_eq [] hperm
  refine ⟨heq.1.trans (by decide), fun stats hstats => ?_⟩
  obtain ⟨hps, hpr, hbs, hbr⟩ := heq.2 _ _ hstats
  exact ⟨hps.trans (by decide), hpr.trans (by decide), hbs.trans (by decide),
    hbr.trans (by decide)⟩

end NetSentry.PacketAnalyzer
