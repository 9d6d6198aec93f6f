import Mathlib.Order.Bounds.Basic
import NetSentry.Lib.ByteOrder
import NetSentry.Network.Equiv.PacketAnalyzer

/-!
# The times of a connection

`processPacket` dates a connection by the packets as they come: the first one that is processed
gives `first_seen_`, and each one `last_seen_`.  The pool of threads may process them in any order.

* `firstSeen_eq`, `lastSeen_eq`: the times of a connection after a run.
* `timesBound_iff`: they are the least and the greatest one exactly where no packet of a connection
  is older than the first one processed or younger than the last one.
-/

namespace NetSentry.PacketAnalyzer

variable {parsers : List ProtocolParser}

/-- The times of the packets of a connection. -/
def timesOf (key : ConnectionKey) (packets : List PacketInfo) : Set UInt64 :=
  {t | ∃ packet ∈ ofConnection key packets, packet.timestamp = t}

/-- The times of each connection are the least and the greatest one of its packets. -/
def TimesBound (a : PacketAnalyzer) (packets : List PacketInfo) : Prop :=
  ∀ key stats, a.connections.lookup key = some stats →
    IsLeast (timesOf key packets) stats.firstSeen ∧
    IsGreatest (timesOf key packets) stats.lastSeen ∧ stats.firstSeen ≤ stats.lastSeen

/-- Of each connection, the packet that is processed first is the oldest and the one that is
processed last is the youngest. -/
def EndsInOrder (packets : List PacketInfo) : Prop :=
  ∀ key, ∀ first ∈ (ofConnection key packets).head?,
    ∀ last ∈ (ofConnection key packets).getLast?, ∀ packet ∈ ofConnection key packets,
      first.timestamp ≤ packet.timestamp ∧ packet.timestamp ≤ last.timestamp

/-! ### The times after a run -/

theorem firstSeen_update (stats : Option ConnectionStats) (packet : PacketInfo) :
    (update parsers stats packet).firstSeen = stats.elim packet.timestamp (·.firstSeen) := by
  cases stats with
  | none =>
    obtain ⟨_, _, hnew⟩ := newStats_eq parsers (createConnectionKey packet) packet
    exact congrArg ConnectionStats.firstSeen hnew
  | some stats =>
    obtain ⟨_, _, hnext⟩ := nextStats_eq parsers (createConnectionKey packet) packet stats
    show (nextStats parsers (createConnectionKey packet) packet stats).firstSeen = _
    rw [hnext]
    rfl

theorem lastSeen_update (stats : Option ConnectionStats) (packet : PacketInfo) :
    (update parsers stats packet).lastSeen = packet.timestamp := by
  cases stats with
  | none =>
    obtain ⟨_, _, hnew⟩ := newStats_eq parsers (createConnectionKey packet) packet
    exact congrArg ConnectionStats.lastSeen hnew
  | some stats =>
    obtain ⟨_, _, hnext⟩ := nextStats_eq parsers (createConnectionKey packet) packet stats
    show (nextStats parsers (createConnectionKey packet) packet stats).lastSeen = _
    rw [hnext]

theorem seen_foldl_update (packets : List PacketInfo) :
    (packets.foldl (fun o p => some (update parsers o p)) none).map (·.firstSeen)
        = packets.head?.map (·.timestamp) ∧
      (packets.foldl (fun o p => some (update parsers o p)) none).map (·.lastSeen)
        = packets.getLast?.map (·.timestamp) := by
  induction packets using List.reverseRecOn with
  | nil => exact ⟨rfl, rfl⟩
  | append_singleton packets packet ih =>
    rw [List.foldl_append, List.foldl_cons, List.foldl_nil, Option.map_some, Option.map_some,
      firstSeen_update, lastSeen_update, List.getLast?_concat, Option.map_some]
    refine ⟨?_, rfl⟩
    -- the first packet stays the first one
    cases packets with
    | nil => rfl
    | cons first rest =>
      obtain ⟨stats, hstats, hfirst⟩ := Option.map_eq_some_iff.mp ih.1
      rw [hstats]
      exact congrArg some hfirst

/-- **The first time** is that of the packet of the connection that was processed first. -/
theorem firstSeen_eq (parsers : List ProtocolParser) (calls : List Call) (key : ConnectionKey) :
    ((calls.foldl call (create parsers)).connections.lookup key).map (·.firstSeen)
      = (ofConnection key (sinceReset calls)).head?.map (·.timestamp) := by
  rw [lookup_connections]
  exact (seen_foldl_update _).1

/-- **The last time** is that of the packet of the connection that was processed last. -/
theorem lastSeen_eq (parsers : List ProtocolParser) (calls : List Call) (key : ConnectionKey) :
    ((calls.foldl call (create parsers)).connections.lookup key).map (·.lastSeen)
      = (ofConnection key (sinceReset calls)).getLast?.map (·.timestamp) := by
  rw [lookup_connections]
  exact (seen_foldl_update _).2

/-! ### Which orders give the bounds -/

/-- The packets of a connection in the table that were processed first and last. -/
theorem ends_of_lookup {calls : List Call} {key : ConnectionKey} {stats : ConnectionStats}
    (h : (calls.foldl call (create parsers)).connections.lookup key = some stats) :
    ∃ first ∈ (ofConnection key (sinceReset calls)).head?,
      ∃ last ∈ (ofConnection key (sinceReset calls)).getLast?,
        first.timestamp = stats.firstSeen ∧ last.timestamp = stats.lastSeen := by
  have hfirst := firstSeen_eq parsers calls key
  have hlast := lastSeen_eq parsers calls key
  rw [h] at hfirst hlast
  obtain ⟨first, hmem, hfirst⟩ := Option.map_eq_some_iff.mp hfirst.symm
  obtain ⟨last, hmem', hlast⟩ := Option.map_eq_some_iff.mp hlast.symm
  exact ⟨first, hmem, last, hmem', hfirst, hlast⟩

theorem timesBound_of_endsInOrder {calls : List Call} (h : EndsInOrder (sinceReset calls)) :
    TimesBound (calls.foldl call (create parsers)) (sinceReset calls) := by
  intro key stats hstats
  obtain ⟨first, hfirst, last, hlast, hfirstSeen, hlastSeen⟩ := ends_of_lookup hstats
  have hbounds := h key first hfirst last hlast
  have hmem := List.mem_of_head? hfirst
  rw [← hfirstSeen, ← hlastSeen]
  refine ⟨⟨⟨first, hmem, rfl⟩, ?_⟩, ⟨⟨last, List.mem_of_getLast? hlast, rfl⟩, ?_⟩,
    (hbounds first hmem).2⟩
  · rintro _ ⟨packet, hpacket, rfl⟩
    exact (hbounds packet hpacket).1
  · rintro _ ⟨packet, hpacket, rfl⟩
    exact (hbounds packet hpacket).2

theorem endsInOrder_of_timesBound {calls : List Call}
    (h : TimesBound (calls.foldl call (create parsers)) (sinceReset calls)) :
    EndsInOrder (sinceReset calls) := by
  intro key first hfirst last hlast packet hpacket
  have hseen := firstSeen_eq parsers calls key
  rw [Option.mem_def.mp hfirst] at hseen
  obtain ⟨stats, hstats, -⟩ := Option.map_eq_some_iff.mp hseen
  obtain ⟨first', hfirst', last', hlast', hfirstSeen, hlastSeen⟩ := ends_of_lookup hstats
  obtain rfl := Option.mem_unique hfirst hfirst'
  obtain rfl := Option.mem_unique hlast hlast'
  obtain ⟨hleast, hgreatest, -⟩ := h key stats hstats
  rw [hfirstSeen, hlastSeen]
  exact ⟨hleast.2 ⟨packet, hpacket, rfl⟩, hgreatest.2 ⟨packet, hpacket, rfl⟩⟩

/-- The times of a connection, least and greatest, do not depend on the order. -/
theorem timesOf_perm {packets packets' : List PacketInfo} (h : packets.Perm packets')
    (key : ConnectionKey) : timesOf key packets = timesOf key packets' := by
  have hmem : ∀ packet, packet ∈ ofConnection key packets ↔ packet ∈ ofConnection key packets' :=
    fun packet => (h.filter _).mem_iff
  simp only [timesOf, hmem]

/-- **The times of the connections bound the traffic** exactly in the orders where of each
connection the oldest packet is processed first and the youngest one last; all such orders of the
same packets give the same times. -/
theorem timesBound_iff (parsers : List ProtocolParser) (calls : List Call) :
    (TimesBound (calls.foldl call (create parsers)) (sinceReset calls)
      ↔ EndsInOrder (sinceReset calls)) ∧
    ∀ calls' : List Call, (sinceReset calls').Perm (sinceReset calls) →
      EndsInOrder (sinceReset calls) → EndsInOrder (sinceReset calls') →
      ∀ key stats stats', (calls.foldl call (create parsers)).connections.lookup key = some stats →
        (calls'.foldl call (create parsers)).connections.lookup key = some stats' →
        stats'.firstSeen = stats.firstSeen ∧ stats'.lastSeen = stats.lastSeen := by
  refine ⟨⟨endsInOrder_of_timesBound, timesBound_of_endsInOrder⟩, ?_⟩
  intro calls' hperm horder horder' key stats stats' hstats hstats'
  obtain ⟨hleast, hgreatest, -⟩ := timesBound_of_endsInOrder horder key stats hstats
  obtain ⟨hleast', hgreatest', -⟩ := timesBound_of_endsInOrder horder' key stats' hstats'
  rw [timesOf_perm hperm] at hleast' hgreatest'
  exact ⟨hleast'.unique hleast, hgreatest'.unique hgreatest⟩

/-- Of two packets of a connection that are processed youngest first, the first time is the later
one. -/
theorem not_timesBound_answer_query :
    ¬ ∀ (parsers : List ProtocolParser) (calls : List Call),
      TimesBound (calls.foldl call (create parsers)) (sinceReset calls) := by
  intro h
  have horder := endsInOrder_of_timesBound (h [] [.processPacket answer, .processPacket query])
  have htimes := horder (createConnectionKey query) answer (by rfl) query (by rfl) query (by decide)
  exact absurd htimes.1 (by decide)

end NetSentry.PacketAnalyzer
