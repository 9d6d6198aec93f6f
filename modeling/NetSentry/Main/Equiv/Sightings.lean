import NetSentry.Api.Equiv.ListingJson
import NetSentry.Main.WireTraffic
import NetSentry.Network.Equiv.Addresses
import NetSentry.Network.Equiv.EthernetFrame

/-!
# Sightings and connections

The packets that the capture loop makes of frames on the wire, and the connections that the analyzer
makes of these packets, in the words of the wire.

* `dottedDecimal_injective`: different addresses have different texts.
* `Sighting.calls_of_sightings`: what the capture loop hands to its handler.
* `Sighting.createConnectionKey_eq_iff`, `Sighting.packetsOf_sightings`: keys stand for
  conversations on the wire, and the packets of a connection are those of its flow.
* `Sighting.counters_flow`, `Sighting.lists_topConnections`: so are its counters, and the
  connections with the most traffic are the flows with the most.
-/

namespace NetSentry

open Bytes Checked

/-! ### Texts -/

theorem decimal_injective : Function.Injective decimal := fun m n h => by
  rw [← digitsValue_decimal m, h, digitsValue_decimal]

/-- **Addresses are told apart** by their texts. -/
theorem dottedDecimal_injective {a b : Bytes} (ha : a ≠ []) (hb : b ≠ [])
    (h : dottedDecimal a = dottedDecimal b) : a = b := by
  have hdot : ∀ addr : Bytes, ∀ l ∈ addr.map fun c => decimal c.toNat, (46 : UInt8) ∉ l := by
    intro addr l hl hmem
    obtain ⟨c, -, rfl⟩ := List.mem_map.mp hl
    exact absurd (forall_isDigit_decimal _ _ hmem) (by decide)
  -- the texts are taken apart at their dots
  have hsplit : ∀ addr : Bytes, addr ≠ [] →
      (dottedDecimal addr).splitOn 46 = addr.map fun c => decimal c.toNat := fun addr hne =>
    List.splitOn_intercalate 46 (hdot addr) (by simpa using hne)
  have hmap : (a.map fun c => decimal c.toNat) = b.map fun c => decimal c.toNat := by
    rw [← hsplit a ha, h, hsplit b hb]
  exact List.map_injective_iff.mpr
    (fun c d hcd => UInt8.toNat_inj.mp (decimal_injective hcd)) hmap

/-! ### The capture loop -/

namespace Sighting

open PacketCapture

/-- The packet that the capture loop makes of the frame. -/
def packet (s : Sighting) : PacketInfo := s.frame.describe (undecoded s.stale s.pcap)

theorem toNat_size (s : Sighting) : s.packet.size.toNat = s.len.toNat := UInt32.toNat_toUInt64 _

theorem decision_pass (s : Sighting) : decision s.pass.1 s.pass.2 = .ok (some s.packet) := by
  have hpositive : 0 < s.packet.size := by
    rw [UInt64.lt_iff_toNat_lt, s.toNat_size]
    exact Nat.pos_of_ne_zero fun h => s.positive (UInt32.toNat_inj.mp h)
  rw [decision, pass, capturePacket_some]
  show (parsePacket _ s.frame.encode s.frame.encode.length >>= _) = _
  rw [EthernetFrame.parsePacket_encode, bind_ok]
  exact congrArg Except.ok (if_pos hpositive)

/-- **The loop hands over what it sees**, and reads no byte out of bounds. -/
theorem calls_of_sightings {η : Type} {c : PacketCapture η} {handler : η}
    (hhandlers : c.handlers = [handler]) (sightings : List Sighting) :
    ∃ passes, c.captureThreadFunc (sightings.map pass) = .ok passes ∧
      passes.flatMap Prod.fst = sightings.map fun s => (handler, s.packet) := by
  have hdecisions : List.Forall₂ (fun pass packet => decision pass.1 pass.2 = .ok packet)
      (sightings.map pass) (sightings.map fun s => some s.packet) := by
    rw [List.forall₂_map_left_iff, List.forall₂_map_right_iff, List.forall₂_same]
    exact fun s _ => s.decision_pass
  refine ⟨_, captureThreadFunc_eq c hdecisions, ?_⟩
  clear hdecisions
  induction sightings generalizing c with
  | nil => rfl
  | cons s sightings ih =>
    rw [List.map_cons, processAll, List.flatMap_cons,
      ih (by rw [handlers_process]; exact hhandlers)]
    simp [process, processPacket, hhandlers]

end Sighting

/-! ### Flows and keys -/

namespace Station

/-- The endpoint of the station, as packets and keys have it. -/
def endpoint (station : Station) : Endpoint := toLex (dottedDecimal station.addr.1, station.port)

theorem endpoint_injective : Function.Injective endpoint := by
  rintro ⟨addr, port⟩ ⟨addr', port'⟩ h
  obtain ⟨haddr, hport⟩ := Prod.mk.inj (toLex_inj.mp h)
  have hne : ∀ a : Octets 4, a.1 ≠ [] := fun a => List.ne_nil_of_length_pos (by rw [a.2]; decide)
  exact congrArg₂ mk (Subtype.ext (dottedDecimal_injective (hne addr) (hne addr') haddr)) hport

end Station

namespace Flow

/-- The key of the flow. -/
def key (flow : Flow) : ConnectionKey where
  sourceIp := dottedDecimal flow.source.addr.1
  destIp := dottedDecimal flow.dest.addr.1
  sourcePort := flow.source.port
  destPort := flow.dest.port
  protocol := flow.protocol

theorem conversation_key (flow : Flow) :
    flow.key.conversation = Prod.map id (Sym2.map Station.endpoint) flow.conversation := rfl

theorem conversation_eq_iff {f g : Flow} :
    f.conversation = g.conversation ↔ f = g ∨ f = g.reverse := by
  obtain ⟨p, a, b⟩ := f
  obtain ⟨q, c, d⟩ := g
  simp only [conversation, reverse, Prod.mk.injEq, Sym2.eq_iff, Flow.mk.injEq]
  tauto

/-- Of a conversation, what the source of the flow sends is in the flow. -/
theorem eq_iff_source {f g : Flow} :
    f.conversation = g.conversation ∧ f.source = g.source ↔ f = g := by
  obtain ⟨p, a, b⟩ := f
  obtain ⟨q, c, d⟩ := g
  simp only [conversation, Prod.mk.injEq, Sym2.eq_iff, Flow.mk.injEq]
  grind

/-- What another station sends is on the way back. -/
theorem eq_reverse_iff_source {f g : Flow} :
    f.conversation = g.conversation ∧ f.source ≠ g.source ↔ f = g.reverse ∧ g.reverse ≠ g := by
  obtain ⟨p, a, b⟩ := f
  obtain ⟨q, c, d⟩ := g
  simp only [conversation, reverse, Prod.mk.injEq, Sym2.eq_iff, Flow.mk.injEq, ne_eq]
  grind

end Flow

namespace Sighting

open PacketAnalyzer

theorem conversation_packet (s : Sighting) :
    s.packet.conversation = Prod.map id (Sym2.map Station.endpoint) s.flow.conversation := rfl

theorem conversation_map_injective :
    Function.Injective (Prod.map (id : UInt8 → UInt8) (Sym2.map Station.endpoint)) :=
  Function.injective_id.prodMap (Sym2.map.injective Station.endpoint_injective)

/-- **Keys stand for conversations on the wire.** -/
theorem createConnectionKey_eq_iff (s t : Sighting) :
    createConnectionKey s.packet = createConnectionKey t.packet
      ↔ s.flow.conversation = t.flow.conversation := by
  rw [PacketAnalyzer.createConnectionKey_eq_iff, conversation_packet, conversation_packet,
    conversation_map_injective.eq_iff]

/-- The flow is one way of a conversation that has been sighted, and its ends are in the order of
the keys. -/
def Keyed (sightings : List Sighting) (flow : Flow) : Prop :=
  ∃ s ∈ sightings, createConnectionKey s.packet = flow.key

/-- The key of a packet is that of its flow or of the way back. -/
theorem exists_key (s : Sighting) : ∃ flow : Flow, createConnectionKey s.packet = flow.key := by
  unfold createConnectionKey
  split_ifs
  · exact ⟨s.flow.reverse, rfl⟩
  · exact ⟨s.flow, rfl⟩

variable {sightings : List Sighting} {flow : Flow}

theorem createConnectionKey_eq_key_iff (hkeyed : Keyed sightings flow) (s : Sighting) :
    createConnectionKey s.packet = flow.key ↔ s.flow.conversation = flow.conversation := by
  obtain ⟨t, -, ht⟩ := hkeyed
  have hconversation : t.flow.conversation = flow.conversation := by
    apply conversation_map_injective
    rw [← conversation_packet, ← Flow.conversation_key, ← ht, conversation_createConnectionKey]
  rw [← ht, createConnectionKey_eq_iff, hconversation]

/-- Different flows of the table are different conversations. -/
theorem key_eq_key_iff {other : Flow} (hkeyed : Keyed sightings flow)
    (hother : Keyed sightings other) :
    flow.key = other.key ↔ flow.conversation = other.conversation := by
  obtain ⟨s, hs, hkey⟩ := id hkeyed
  rw [← hkey, createConnectionKey_eq_key_iff hother,
    (createConnectionKey_eq_key_iff hkeyed s).mp hkey]

theorem fromSource_key (s : Sighting) : fromSource flow.key s.packet = true
    ↔ s.flow.source = flow.source := by
  rw [← Station.endpoint_injective.eq_iff, Station.endpoint, Station.endpoint, toLex_inj,
    Prod.mk.injEq, fromSource, Bool.and_eq_true, decide_eq_true_iff, decide_eq_true_iff]
  exact Iff.rfl

/-- **The packets of a connection** are those of its flow on the wire. -/
theorem packetsOf_sightings (hkeyed : Keyed sightings flow) :
    packetsOf flow.key true (sightings.map packet) = (sentIn sightings flow).map packet ∧
    packetsOf flow.key false (sightings.map packet) = (receivedIn sightings flow).map packet := by
  constructor
  · rw [PacketAnalyzer.packetsOf, List.filter_map, sentIn]
    congr 1
    refine List.filter_congr fun s _ => decide_eq_decide.mpr ?_
    rw [createConnectionKey_eq_key_iff hkeyed, fromSource_key, Flow.eq_iff_source]
  · rw [PacketAnalyzer.packetsOf, List.filter_map, receivedIn]
    congr 1
    refine List.filter_congr fun s _ => decide_eq_decide.mpr ?_
    rw [createConnectionKey_eq_key_iff hkeyed, Bool.eq_false_iff, ne_eq, fromSource_key,
      Flow.eq_reverse_iff_source]

/-! ### What the listing says -/

/-- What is sent and what is received is all that passes between the two. -/
theorem sum_sentIn_add_receivedIn (weight : Sighting → ℕ) (sightings : List Sighting)
    (flow : Flow) :
    ((sentIn sightings flow).map weight).sum + ((receivedIn sightings flow).map weight).sum
      = ((sightings.filter (·.flow.conversation = flow.conversation)).map weight).sum := by
  set between := sightings.filter (·.flow.conversation = flow.conversation) with hbetween
  have hsent : sentIn sightings flow = between.filter (·.flow.source = flow.source) := by
    rw [sentIn, hbetween, List.filter_filter]
    refine List.filter_congr fun s _ => ?_
    rw [← Bool.decide_and, decide_eq_decide, and_comm, Flow.eq_iff_source]
  have hreceived : receivedIn sightings flow
      = between.filter fun s => !decide (s.flow.source = flow.source) := by
    rw [receivedIn, hbetween, List.filter_filter]
    refine List.filter_congr fun s _ => ?_
    rw [← decide_not, ← Bool.decide_and, decide_eq_decide]
    exact Flow.eq_reverse_iff_source.symm.trans and_comm
  rw [hsent, hreceived, ← List.sum_append, ← List.map_append]
  exact ((List.filter_append_perm _ between).map weight).sum_eq

section Stats

variable {parsers : List ProtocolParser} {calls : List Call} {stats : ConnectionStats}
  (hperm : (sightings.map packet).Perm (sinceReset calls)) (hkeyed : Keyed sightings flow)
  (hstats : (calls.foldl call (create parsers)).connections.lookup flow.key = some stats)
include hperm hkeyed hstats

/-- A counter to which every packet of one direction adds its weight. -/
theorem toNat_counter {counter : ConnectionStats → UInt64} {sent : Bool}
    {weight : PacketInfo → UInt64}
    (hcounter : ∀ o packet, counter (update parsers o packet) = o.elim 0 counter
      + if fromSource (createConnectionKey packet) packet = sent then weight packet else 0) :
    (counter stats).toNat
      = ((if sent then sentIn sightings flow else receivedIn sightings flow).map
          fun s => (weight s.packet).toNat).sum % 2 ^ 64 := by
  have hpackets := packetsOf_sightings hkeyed
  rw [counter_eq_sum hperm hcounter hstats, toNat_sum]
  cases sent with
  | true =>
    rw [hpackets.1, List.map_map, List.map_map]
    rfl
  | false =>
    rw [hpackets.2, List.map_map, List.map_map]
    rfl

/-- **The statistics of a connection** are those of its flow on the wire. -/
theorem counters_flow :
    stats.packetsSent.toNat = (sentIn sightings flow).length % 2 ^ 64 ∧
    stats.packetsReceived.toNat = (receivedIn sightings flow).length % 2 ^ 64 ∧
    stats.bytesSent.toNat = bytesOf (sentIn sightings flow) ∧
    stats.bytesReceived.toNat = bytesOf (receivedIn sightings flow) := by
  have hcount : ∀ ss : List Sighting, (ss.map fun _ => (1 : UInt64).toNat).sum = ss.length := by
    intro ss
    rw [List.map_const', List.sum_replicate]
    exact Nat.mul_one _
  have hsize : ∀ ss : List Sighting,
      (ss.map fun s => s.packet.size.toNat).sum % 2 ^ 64 = bytesOf ss := by
    intro ss
    rw [bytesOf, funext toNat_size]
  refine ⟨?_, ?_, ?_, ?_⟩
  · rw [toNat_counter hperm hkeyed hstats fun o p => (counters_update parsers o p).1]
    exact congrArg (· % 2 ^ 64) (hcount _)
  · rw [toNat_counter hperm hkeyed hstats fun o p => (counters_update parsers o p).2.1]
    exact congrArg (· % 2 ^ 64) (hcount _)
  · rw [toNat_counter hperm hkeyed hstats fun o p => (counters_update parsers o p).2.2.1]
    exact hsize _
  · rw [toNat_counter hperm hkeyed hstats fun o p => (counters_update parsers o p).2.2.2]
    exact hsize _

/-- The bytes of a connection are those of its conversation on the wire. -/
theorem toNat_traffic : (traffic (flow.key, stats)).toNat = bytesBetween sightings flow := by
  obtain ⟨-, -, hsent, hreceived⟩ := counters_flow hperm hkeyed hstats
  rw [traffic, carried, UInt64.toNat_add, hsent, hreceived, bytesOf, bytesOf, ← Nat.add_mod,
    sum_sentIn_add_receivedIn]
  rfl

/-- The object of a connection is that of its flow. -/
theorem connectionJson_flow :
    RestApi.connectionJson (flow.key, stats) = flowJson sightings flow := by
  obtain ⟨hpacketsSent, hpacketsReceived, hsent, hreceived⟩ := counters_flow hperm hkeyed hstats
  simp only [RestApi.connectionJson, flowJson, hpacketsSent, hpacketsReceived, hsent, hreceived]
  rfl

end Stats

section Listing

variable {parsers : List ProtocolParser} {calls : List Call}
  (hperm : (sightings.map packet).Perm (sinceReset calls))
include hperm

theorem keys_connections : (calls.foldl call (create parsers)).connections.keys
    = (sightings.map fun s => createConnectionKey s.packet).toFinset := by
  rw [connections_foldl_call, KeyedFold.keys_foldl_accumulate, Finmap.keys_empty,
    Finset.empty_union]
  rw [List.toFinset_eq_of_perm _ _ (hperm.map _).symm, List.map_map]
  rfl

/-- As many keys as conversations. -/
theorem card_keys : (calls.foldl call (create parsers)).connections.keys.card
    = (sightings.map (·.flow.conversation)).toFinset.card := by
  rw [keys_connections hperm]
  clear hperm
  induction sightings with
  | nil => rfl
  | cons s sightings ih =>
    have hmem : createConnectionKey s.packet
          ∈ (sightings.map fun s => createConnectionKey s.packet).toFinset
        ↔ s.flow.conversation ∈ (sightings.map (·.flow.conversation)).toFinset := by
      simp only [List.mem_toFinset, List.mem_map, createConnectionKey_eq_iff]
    rw [List.map_cons, List.map_cons, List.toFinset_cons, List.toFinset_cons,
      Finset.card_insert_eq_ite, Finset.card_insert_eq_ite, ih]
    simp only [hmem]

/-- A connection of the table is a flow with its statistics. -/
theorem exists_flow {key : ConnectionKey} {stats : ConnectionStats}
    (hstats : (calls.foldl call (create parsers)).connections.lookup key = some stats) :
    ∃ flow : Flow, flow.key = key ∧ Keyed sightings flow := by
  have hmem := Finmap.mem_keys.mpr (Finmap.mem_of_lookup_eq_some hstats)
  rw [keys_connections hperm, List.mem_toFinset] at hmem
  obtain ⟨s, hs, rfl⟩ := List.mem_map.mp hmem
  obtain ⟨flow, hflow⟩ := s.exists_key
  exact ⟨flow, hflow.symm, s, hs, hflow⟩

/-- A flow that has been sighted is in the table. -/
theorem exists_stats (parsers : List ProtocolParser) (hkeyed : Keyed sightings flow) :
    ∃ stats, (calls.foldl call (create parsers)).connections.lookup flow.key = some stats := by
  apply Option.isSome_iff_exists.mp
  rw [Finmap.lookup_isSome, ← Finmap.mem_keys, keys_connections hperm, List.mem_toFinset]
  exact List.mem_map.mpr hkeyed

/-- The connections with the most traffic. -/
theorem lists_topConnections {limit : UInt64} {result : List (ConnectionKey × ConnectionStats)}
    (htop : TopConnections (calls.foldl call (create parsers)) limit result) :
    ∃ listed, Lists sightings limit.toNat listed ∧
      result.map RestApi.connectionJson = listed.map (flowJson sightings) := by
  set a := calls.foldl call (create parsers)
  -- the flows of the connections
  let entryOf (flow : { flow // Keyed sightings flow }) : ConnectionKey × ConnectionStats :=
    (flow.1.key, (a.connections.lookup flow.1.key).getD {})
  obtain ⟨listed, rfl⟩ : ∃ listed, List.map entryOf listed = result := by
    rw [← Set.mem_range, Set.range_list_map]
    intro entry hentry
    have hstats := htop.found entry hentry
    obtain ⟨flow, hflow, hkeyed⟩ := exists_flow hperm hstats
    refine ⟨⟨flow, hkeyed⟩, Prod.ext hflow ?_⟩
    show (a.connections.lookup flow.key).getD {} = entry.2
    rw [hflow, hstats, Option.getD_some]
  have hfound : ∀ flow ∈ listed, a.connections.lookup flow.1.key = some (entryOf flow).2 :=
    fun flow hflow => htop.found _ (List.mem_map_of_mem hflow)
  have htraffic : ∀ flow ∈ listed,
      (traffic (entryOf flow)).toNat = bytesBetween sightings flow.1 :=
    fun flow hflow => toNat_traffic hperm flow.2 (hfound flow hflow)
  refine ⟨listed.map Subtype.val, ⟨?_, ?_, ?_, ?_, ?_⟩, ?_⟩
  · rw [List.length_map, ← card_keys hperm, ← htop.length, List.length_map]
  · intro flow hflow
    obtain ⟨⟨_, hkeyed⟩, -, rfl⟩ := List.mem_map.mp hflow
    obtain ⟨s, hs, hkey⟩ := id hkeyed
    exact ⟨s, hs, (createConnectionKey_eq_key_iff hkeyed s).mp hkey⟩
  · have hnodup := htop.nodup
    rw [List.map_map, List.Nodup, List.pairwise_map] at hnodup ⊢
    exact hnodup.imp fun {flow next} hne hconversation =>
      hne ((key_eq_key_iff flow.2 next.2).mpr hconversation)
  · have hordered := htop.ordered
    rw [List.pairwise_map] at hordered ⊢
    refine hordered.imp_of_mem fun {flow next} hflow hnext hle => ?_
    rw [← htraffic flow hflow, ← htraffic next hnext]
    exact UInt64.le_iff_toNat_le.mp hle
  · intro s hs hnot flow hflow
    obtain ⟨flow, hmem, rfl⟩ := List.mem_map.mp hflow
    -- the connection of the frame is in the table, and is not listed
    obtain ⟨other, hother⟩ := s.exists_key
    have hkeyed : Keyed sightings other := ⟨s, hs, hother⟩
    have hconversation := (createConnectionKey_eq_key_iff hkeyed s).mp hother
    obtain ⟨stats, hstats⟩ := exists_stats hperm parsers hkeyed
    have hout : (other.key, stats) ∉ listed.map entryOf := by
      intro hentry
      obtain ⟨listedFlow, hlisted, heq⟩ := List.mem_map.mp hentry
      apply hnot
      rw [hconversation, ← (key_eq_key_iff listedFlow.2 hkeyed).mp (congrArg Prod.fst heq)]
      exact List.mem_map_of_mem (List.mem_map_of_mem hlisted)
    have hle := htop.leftOut other.key stats hstats hout _ (List.mem_map_of_mem hmem)
    rw [bytesBetween, hconversation, ← htraffic flow hmem]
    change bytesBetween sightings other ≤ _
    rw [← toNat_traffic hperm hkeyed hstats]
    exact UInt64.le_iff_toNat_le.mp hle
  · rw [List.map_map, List.map_map]
    refine List.map_congr_left fun flow hflow => ?_
    exact connectionJson_flow hperm flow.2 (hfound flow hflow)

end Listing

theorem addressed_packet (s : Sighting) : s.packet.Addressed :=
  ⟨.inr ⟨_, s.frame.sourceAddr.2, rfl⟩, .inr ⟨_, s.frame.destAddr.2, rfl⟩⟩

end Sighting

end NetSentry
