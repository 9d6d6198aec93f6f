import NetSentry.Network.Equiv.ProtocolDetection
import NetSentry.Network.Equiv.PacketAnalyzer

/-!
# The protocol of a connection

A connection is asked for its protocol with every packet until a parser recognises one, and never
again.  `protocol_latched`: what is recorded after a run is what the first parser that recognises
the first recognised packet of the connection returns.
-/

namespace NetSentry.PacketAnalyzer

open ProtocolParserFactory

variable {parsers : List ProtocolParser}

/-- The type that is recorded is the type of the data that are recorded. -/
def TypeMatches (stats : ConnectionStats) : Prop :=
  stats.protocolType = stats.protocolData.map (·.type)

/-- What is detected is recorded, and nothing where nothing is. -/
theorem protocol_analyzeProtocol {stats : ConnectionStats} (htype : stats.protocolType = none)
    (hdata : stats.protocolData = none) (packet : PacketInfo) :
    TypeMatches (analyzeProtocol packet stats parsers) ∧
      (analyzeProtocol packet stats parsers).protocolData = detect parsers packet := by
  rw [analyzeProtocol_eq_detect, TypeMatches]
  cases detect parsers packet with
  | some protocolData => exact ⟨rfl, rfl⟩
  | none => exact ⟨by rw [Option.elim_none, htype, hdata]; rfl, hdata⟩

/-- Counting a packet leaves the protocol alone; then the parsers are asked if there is none. -/
theorem nextStats_eq_analyzeProtocol (parsers : List ProtocolParser) (key : ConnectionKey)
    (packet : PacketInfo) (stats : ConnectionStats) :
    ∃ counted : ConnectionStats, counted.protocolType = stats.protocolType ∧
      counted.protocolData = stats.protocolData ∧ nextStats parsers key packet stats
        = if stats.protocolType = none then analyzeProtocol packet counted parsers
          else counted := by
  unfold nextStats
  cases fromSource key packet with
  | true => refine ⟨_, ?_, ?_, rfl⟩ <;> rfl
  | false => refine ⟨_, ?_, ?_, rfl⟩ <;> rfl

/-- **One packet** is asked for the protocol only while none is recorded. -/
theorem protocol_update (parsers : List ProtocolParser) {o : Option ConnectionStats}
    (h : ∀ stats ∈ o, TypeMatches stats) (packet : PacketInfo) :
    TypeMatches (update parsers o packet) ∧
      (update parsers o packet).protocolData
        = (o.bind (·.protocolData)).or (detect parsers packet) := by
  cases o with
  | none =>
    rw [update, Option.elim_none, newStats]
    exact protocol_analyzeProtocol (by split_ifs <;> rfl) (by split_ifs <;> rfl) packet
  | some stats =>
    have hmatches : stats.protocolType = stats.protocolData.map (·.type) := h stats rfl
    obtain ⟨counted, htype, hdata, hnext⟩ := nextStats_eq_analyzeProtocol parsers
      (createConnectionKey packet) packet stats
    rw [update, Option.elim_some, hnext, Option.bind_some]
    cases hrecorded : stats.protocolData with
    | none =>
      have hnone : stats.protocolType = none := by rw [hmatches, hrecorded, Option.map_none]
      rw [if_pos hnone, Option.none_or]
      exact protocol_analyzeProtocol (htype.trans hnone) (hdata.trans hrecorded) packet
    | some protocolData =>
      have hsome : stats.protocolType ≠ none := by simp [hmatches, hrecorded]
      rw [if_neg hsome, Option.some_or, TypeMatches, htype, hdata]
      exact ⟨hmatches, hrecorded⟩

/-- **A run of packets** of one connection records what is detected first. -/
theorem protocol_foldl_update (parsers : List ProtocolParser) (packets : List PacketInfo) :
    (∀ stats ∈ packets.foldl (fun o p => some (update parsers o p)) none, TypeMatches stats) ∧
      (packets.foldl (fun o p => some (update parsers o p)) none).bind (·.protocolData)
        = packets.findSome? (detect parsers) := by
  induction packets using List.reverseRecOn with
  | nil => exact ⟨fun stats hstats => absurd hstats (Option.not_mem_none _), rfl⟩
  | append_singleton packets packet ih =>
    obtain ⟨hmatches, hdata⟩ := protocol_update parsers ih.1 packet
    rw [List.foldl_append, List.foldl_cons, List.foldl_nil, Option.bind_some,
      List.findSome?_append, List.findSome?_singleton, hdata, ih.2]
    refine ⟨fun stats hstats => ?_, rfl⟩
    obtain rfl := Option.some.inj hstats
    exact hmatches

/-- What is recorded of the protocol of each connection: the data are what the first parser that
accepts the first packet that one accepts returns, the type is theirs, and there is one exactly
where a packet is accepted. -/
def Latched (parsers : List ProtocolParser) (a : PacketAnalyzer) (packets : List PacketInfo) :
    Prop :=
  ∀ key stats, a.connections.lookup key = some stats →
    stats.protocolData = (ofConnection key packets).findSome? (detect parsers) ∧
    stats.protocolType = stats.protocolData.map (·.type) ∧
    (stats.protocolType.isSome ↔
      ∃ packet ∈ ofConnection key packets, ∃ parser ∈ parsers, (parser packet).isSome)

theorem latched (parsers : List ProtocolParser) (calls : List Call) :
    Latched parsers (calls.foldl call (create parsers)) (sinceReset calls) := by
  intro key stats hstats
  rw [lookup_connections] at hstats
  obtain ⟨hmatches, hdata⟩ :=
    protocol_foldl_update parsers (ofConnection key (sinceReset calls))
  rw [hstats, Option.bind_some] at hdata
  refine ⟨hdata, hmatches stats hstats, ?_⟩
  rw [hmatches stats hstats, Option.isSome_map, hdata, List.isSome_findSome?]
  simp only [detect, List.any_eq_true, List.isSome_findSome?]

/-- A packet of a connection that is there leaves it there. -/
theorem exists_foldl_update (stats : ConnectionStats) (packets : List PacketInfo) :
    ∃ stats', packets.foldl (fun o p => some (update parsers o p)) (some stats) = some stats' := by
  induction packets generalizing stats with
  | nil => exact ⟨stats, rfl⟩
  | cons packet packets ih => exact ih _

theorem sinceReset_append_packets (calls : List Call) (packets : List PacketInfo) :
    sinceReset (calls ++ packets.map Call.processPacket) = sinceReset calls ++ packets := by
  induction packets using List.reverseRecOn with
  | nil => rw [List.map_nil, List.append_nil, List.append_nil]
  | append_singleton packets packet ih =>
    rw [List.map_append, ← List.append_assoc, List.map_singleton,
      sinceReset_append_processPacket, ih, List.append_assoc]

/-- **What is recorded stays**, whatever packets follow. -/
theorem protocol_stays {calls : List Call} {key : ConnectionKey} {stats : ConnectionStats}
    (hstats : (calls.foldl call (create parsers)).connections.lookup key = some stats)
    (hsome : stats.protocolType.isSome) (later : List PacketInfo) :
    ∃ stats', ((calls ++ later.map Call.processPacket).foldl call
        (create parsers)).connections.lookup key = some stats' ∧
      stats'.protocolType = stats.protocolType ∧ stats'.protocolData = stats.protocolData := by
  have hsplit : ofConnection key (sinceReset (calls ++ later.map Call.processPacket))
      = ofConnection key (sinceReset calls) ++ ofConnection key later := by
    rw [sinceReset_append_packets, ofConnection, List.filter_append]
    rfl
  obtain ⟨stats', hstats'⟩ : ∃ stats', ((calls ++ later.map Call.processPacket).foldl call
      (create parsers)).connections.lookup key = some stats' := by
    rw [lookup_connections, hsplit, List.foldl_append, ← lookup_connections, hstats]
    exact exists_foldl_update stats _
  refine ⟨stats', hstats', ?_⟩
  obtain ⟨hdata, htype, -⟩ := latched parsers calls key stats hstats
  obtain ⟨hdata', htype', -⟩ := latched parsers _ key stats' hstats'
  have hsame : stats'.protocolData = stats.protocolData := by
    -- the search stops at the packet that it stopped at before
    rw [htype, Option.isSome_map] at hsome
    rw [hdata', hsplit, List.findSome?_append, ← hdata, Option.or_of_isSome hsome]
  exact ⟨by rw [htype', htype, hsame], hsame⟩

/-- A packet that has been processed has an entry. -/
theorem exists_lookup_of_mem (parsers : List ProtocolParser) (calls : List Call)
    {packet : PacketInfo} (hpacket : packet ∈ sinceReset calls) :
    ∃ stats, (calls.foldl call (create parsers)).connections.lookup (createConnectionKey packet)
      = some stats := by
  have hmem : packet ∈ ofConnection (createConnectionKey packet) (sinceReset calls) :=
    List.mem_filter.mpr ⟨hpacket, decide_eq_true rfl⟩
  rw [lookup_connections]
  cases hpackets : ofConnection (createConnectionKey packet) (sinceReset calls) with
  | nil => exact absurd hmem (hpackets ▸ List.not_mem_nil)
  | cons first packets => exact exists_foldl_update (update parsers none first) packets

/-- **Protocol detection latches the first recognised packet**, in every run of an analyzer with the
factory's parsers: each packet has the entry of its connection, and no later packet changes what was
recorded. -/
theorem protocol_latched (undef : ProtocolParser) (calls : List Call) :
    (∀ packet ∈ sinceReset calls, ∃ stats,
      (calls.foldl call (create (createAllParsers undef))).connections.lookup
        (createConnectionKey packet) = some stats) ∧
    Latched (createAllParsers undef) (calls.foldl call (create (createAllParsers undef)))
      (sinceReset calls) ∧
    ∀ key stats,
      (calls.foldl call (create (createAllParsers undef))).connections.lookup key = some stats →
      stats.protocolType.isSome → ∀ later : List PacketInfo, ∃ stats',
        ((calls ++ later.map Call.processPacket).foldl call
          (create (createAllParsers undef))).connections.lookup key = some stats' ∧
        stats'.protocolType = stats.protocolType ∧ stats'.protocolData = stats.protocolData :=
  ⟨fun _ hpacket => exists_lookup_of_mem _ calls hpacket, latched _ calls,
    fun _ _ hstats hsome later => protocol_stays hstats hsome later⟩

/-- A segment of a connection from port 0 to port 443. -/
def segment (data : Bytes) : PacketInfo :=
  { PacketInfo.defaultInit ⟨0, 0, 443, IPPROTO_TCP, 0⟩ with data := data }

/-- A segment that no parser accepts, and then a record of application data. -/
def acknowledgementThenRecord : List Call :=
  [.processPacket (segment []), .processPacket (segment [23, 3, 3, 0, 1, 0])]

/-- The record settles the protocol of the connection, also when a request follows. -/
theorem protocol_latched_record :
    ∃ stats, (acknowledgementThenRecord.foldl call
        (create (createAllParsers fun _ => none))).connections.lookup
          (createConnectionKey (segment [])) = some stats ∧
      stats.protocolType = some .tls ∧
      ∃ stats', ((acknowledgementThenRecord ++
          [segment (Bytes.ascii "GET / HTTP/1.1")].map Call.processPacket).foldl call
          (create (createAllParsers fun _ => none))).connections.lookup
            (createConnectionKey (segment [])) = some stats' ∧
        stats'.protocolType = some .tls := by
  obtain ⟨hentry, hlatched, hstays⟩ :=
    protocol_latched (fun _ => none) acknowledgementThenRecord
  obtain ⟨stats, hstats⟩ := hentry (segment []) (.head _)
  obtain ⟨hdata, htype, -⟩ := hlatched _ stats hstats
  have htls : stats.protocolType = some .tls := by
    rw [htype, hdata]
    decide +kernel
  obtain ⟨stats', hstats', htype', -⟩ := hstays _ stats hstats (by rw [htls]; rfl)
    [segment (Bytes.ascii "GET / HTTP/1.1")]
  exact ⟨stats, hstats, htls, stats', hstats', htype'.trans htls⟩

end NetSentry.PacketAnalyzer
