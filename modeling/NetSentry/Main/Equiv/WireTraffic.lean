import NetSentry.Lib.Progress
import NetSentry.Main.Equiv.ProcessedPackets
import NetSentry.Main.Equiv.Sightings
import NetSentry.Network.Equiv.ProtocolDetection

/-!
# From the wire to the API and to the database

Whichever frames the capture loop finds, however many workers there are and in whatever order they
take their steps, once all tasks have finished

* the listing of the connections is that of the traffic on the wire (`connections_of_sightings`);
* the stored records are those of the traffic on the wire, where statistics that are not current any
  more are stored only while another task of their connection is still to store its own
  (`stored_of_sightings`).
-/

namespace NetSentry

open Bytes Transition PacketAnalyzer PacketTask RestApi Json

variable {δ η : Type} {n : ℕ} {db : ConnectionDatabase δ}

/-- What the analyzer has been called with, in the end. -/
theorem analyzer_of_sightings {parsers : List ProtocolParser} {database : δ}
    {c : PacketCapture η} {handler : η} (hhandlers : c.handlers = [handler])
    {sightings : List Sighting} {passes : List (List (η × PacketInfo) × PacketCapture η)}
    (hloop : c.captureThreadFunc (sightings.map Sighting.pass) = .ok passes)
    {as : List (Action n)} {w : World δ n}
    (hrun : Path (step db) (fun _ _ => True) (World.initial parsers database) as w)
    (hcalls : as.filterMap captured = (passes.flatMap Prod.fst).map Prod.snd)
    (hfinished : w.Finished) :
    ∃ calls, w.analyzer = calls.foldl PacketAnalyzer.call (create parsers) ∧
      (sightings.map Sighting.packet).Perm (sinceReset calls) ∧ Addressed w.analyzer := by
  obtain ⟨passes', hloop', hpasses⟩ := Sighting.calls_of_sightings hhandlers sightings
  obtain rfl := Except.ok.inj (hloop.symm.trans hloop')
  rw [hpasses, List.map_map] at hcalls
  obtain ⟨processed, hanalyzer, hperm⟩ := processed_of_finished hrun hfinished
  rw [hcalls] at hperm
  have hcall : w.analyzer = (processed.map PacketAnalyzer.Call.processPacket).foldl
      PacketAnalyzer.call (create parsers) := by
    rw [hanalyzer, List.foldl_map]
    rfl
  refine ⟨processed.map PacketAnalyzer.Call.processPacket, hcall, ?_, ?_⟩
  · rw [sinceReset_map]
    exact hperm
  · rw [hcall]
    refine addressed_of_run (addressed_create parsers) fun packet hpacket => ?_
    obtain ⟨p, hp, heq⟩ := List.mem_map.mp hpacket
    obtain rfl := PacketAnalyzer.Call.processPacket.inj heq
    obtain ⟨s, -, rfl⟩ := List.mem_map.mp (hperm.mem_iff.mpr hp)
    exact s.addressed_packet

/-- **What the API lists is what passed on the wire.**  The capture loop finds the frames, the tasks
that its handler enqueues are run by any number of workers, which take their steps in any order, and
all of them finish.  Then the body of the listing of the connections reads as one object for each of
the conversations with the most bytes on the wire, as many as the request asks for, with the
stations, and with what they have sent and received of the frames. -/
theorem connections_of_sightings {parsers : List ProtocolParser} {database : δ}
    {c : PacketCapture η} {handler : η} (hhandlers : c.handlers = [handler])
    {sightings : List Sighting} {passes : List (List (η × PacketInfo) × PacketCapture η)}
    (hloop : c.captureThreadFunc (sightings.map Sighting.pass) = .ok passes)
    {as : List (Action n)} {w : World δ n}
    (hrun : Path (step db) (fun _ _ => True) (World.initial parsers database) as w)
    (hcalls : as.filterMap captured = (passes.flatMap Prod.fst).map Prod.snd)
    (hfinished : w.Finished) (sorter : Sorter compareConnectionsByTraffic)
    (visit : ∀ a : PacketAnalyzer, KeyedFold.VisitOrder a.connections) (request : HttpRequest) :
    ∃ listed, Lists sightings (limitOf request).toNat listed ∧
      read (handleGetConnections sorter visit (some w.analyzer) request).body
        = some (.object [(ascii "connections", .array (listed.map (flowJson sightings)))]) := by
  obtain ⟨calls, hanalyzer, hperm, haddressed⟩ :=
    analyzer_of_sightings hhandlers hloop hrun hcalls hfinished
  have htop := topConnections_getTopConnections w.analyzer sorter (visit w.analyzer)
    (limitOf request)
  rw [read_handleGetConnections haddressed request sorter visit]
  rw [hanalyzer] at htop ⊢
  obtain ⟨listed, hlists, hjson⟩ := Sighting.lists_topConnections hperm htop
  rw [hjson]
  exact ⟨listed, hlists, rfl⟩

/-- A frame with a request. -/
def requestSighting : Sighting where
  frame := requestFrame.toEthernetFrame
  tvSec := 1
  tvUsec := 0
  len := 81
  stale := ⟨0, 0, 0, 0, 0⟩
  positive := by decide

/-- The frame, and then one that goes the other way. -/
def requestAndAnswer : List Sighting :=
  [requestSighting, { requestSighting with
    frame := requestFrame.toEthernetFrame.reverse
    tvUsec := 500
    len := 90
    positive := by decide }]

def firstWorker : Fin 2 := ⟨0, Nat.two_pos⟩

def secondWorker : Fin 2 := ⟨1, Nat.one_lt_two⟩

/-- Two workers, of which the one that takes its task last processes its packet first. -/
def overtaking : List (Action 2) :=
  requestAndAnswer.map (.enqueue ·.packet) ++
    [.take firstWorker, .take secondWorker, .process secondWorker, .process firstWorker,
      .fetch firstWorker, .update firstWorker, .fetch secondWorker, .update secondWorker]

theorem connections_of_sightings_overtaking : ∃ w : World _ 2,
    run (step mapDatabase) (fun _ _ => True) (World.initial [] ∅) overtaking = some w ∧
    ∃ listed : List Flow, listed.length = 1 ∧
      read (handleGetConnections (TopK.mergeSorter compareConnectionsByTraffic_byWeight)
          (fun a => KeyedFold.someOrder a.connections) (some w.analyzer) plainRequest).body
        = some (.object [(ascii "connections",
          .array (listed.map (flowJson requestAndAnswer)))]) := by
  have hend : (run (step mapDatabase) (fun _ _ => True) (World.initial [] ∅) overtaking).any
      (fun w => decide w.Finished) = true := by decide +kernel
  obtain ⟨w, hrun, hfinished⟩ := (Option.any_eq_true _ _).mp hend
  let c : PacketCapture Unit := PacketCapture.create.registerHandler ()
  have hhandlers : c.handlers = [()] := rfl
  obtain ⟨passes, hloop, hpasses⟩ := Sighting.calls_of_sightings hhandlers requestAndAnswer
  have hcalls : overtaking.filterMap captured = (passes.flatMap Prod.fst).map Prod.snd := by
    rw [hpasses]
    rfl
  obtain ⟨listed, hlists, hbody⟩ := connections_of_sightings hhandlers hloop
    (path_of_run hrun) hcalls (of_decide_eq_true hfinished)
    (TopK.mergeSorter compareConnectionsByTraffic_byWeight)
    (fun a => KeyedFold.someOrder a.connections) plainRequest
  refine ⟨w, hrun, listed, hlists.length.trans ?_, hbody⟩
  decide +kernel

/-- **What the database has is what passed on the wire.**  The same, where a worker that stores
statistics which are not current any more leaves another task of their connection that will: when
all tasks have finished, the record that is stored for the conversation of any frame has the bytes
and the packets that its stations have sent and received. -/
theorem stored_of_sightings {parsers : List ProtocolParser} {database : δ}
    {c : PacketCapture η} {handler : η} (hhandlers : c.handlers = [handler])
    {sightings : List Sighting} {passes : List (List (η × PacketInfo) × PacketCapture η)}
    (hloop : c.captureThreadFunc (sightings.map Sighting.pass) = .ok passes)
    {as : List (Action n)} {w : World δ n}
    (hrun : Path (step db) StaleIsCovered (World.initial parsers database) as w)
    (hcalls : as.filterMap captured = (passes.flatMap Prod.fst).map Prod.snd)
    (hfinished : w.Finished) {s : Sighting} (hs : s ∈ sightings) :
    ∃ flow : Flow, flow.conversation = s.flow.conversation ∧
      ∃ record, db.stored w.database flow.key = some record ∧
        record.packetsSent.toNat = (sentIn sightings flow).length % 2 ^ 64 ∧
        record.packetsReceived.toNat = (receivedIn sightings flow).length % 2 ^ 64 ∧
        record.bytesSent.toNat = bytesOf (sentIn sightings flow) ∧
        record.bytesReceived.toNat = bytesOf (receivedIn sightings flow) := by
  obtain ⟨calls, hanalyzer, hperm, -⟩ := analyzer_of_sightings hhandlers hloop
    (hrun.mono fun _ _ _ => trivial) hcalls hfinished
  obtain ⟨flow, hkey⟩ := s.exists_key
  have hkeyed : Sighting.Keyed sightings flow := ⟨s, hs, hkey⟩
  obtain ⟨stats, hstats⟩ := Sighting.exists_stats hperm parsers hkeyed
  refine ⟨flow, ((Sighting.createConnectionKey_eq_key_iff hkeyed s).mp hkey).symm,
    connectionRecord flow.key stats, ?_, Sighting.counters_flow hperm hkeyed hstats⟩
  have hinv : Inv db w := hrun.reaches.invariant
    (fun _ _ _ hinv hcovered hstep => inv_step hinv hcovered hstep) (inv_initial parsers database)
  refine (hinv flow.key).resolve_right ?_ stats (hanalyzer ▸ hstats)
  rintro (⟨p, hp, -⟩ | ⟨i, hi⟩)
  · rw [hfinished.1] at hp
    cases hp
  · rw [hfinished.2 i] at hi
    exact hi.elim

/-- Two workers handle the two packets.  The first one stores statistics that are not current any
more, while the second one has still to fetch its own. -/
def overlappingTasks : List (Action 2) :=
  requestAndAnswer.map (.enqueue ·.packet) ++
    [.take firstWorker, .take secondWorker, .process firstWorker, .fetch firstWorker,
      .process secondWorker, .update firstWorker, .fetch secondWorker, .update secondWorker]

theorem stored_of_sightings_overlapping : ∃ w : World _ 2,
    run (step mapDatabase) StaleIsCovered (World.initial [] ∅) overlappingTasks = some w ∧
    ∃ key record, w.database.lookup key = some record ∧
      record.packetsSent.toNat + record.packetsReceived.toNat = 2 ∧
      record.bytesSent.toNat + record.bytesReceived.toNat = 171 := by
  have hend : (run (step mapDatabase) StaleIsCovered (World.initial [] ∅) overlappingTasks).any
      (fun w => decide w.Finished) = true := by decide +kernel
  obtain ⟨w, hrun, hfinished⟩ := (Option.any_eq_true _ _).mp hend
  let c : PacketCapture Unit := PacketCapture.create.registerHandler ()
  have hhandlers : c.handlers = [()] := rfl
  obtain ⟨passes, hloop, hpasses⟩ := Sighting.calls_of_sightings hhandlers requestAndAnswer
  have hcalls : overlappingTasks.filterMap captured
      = (passes.flatMap Prod.fst).map Prod.snd := by
    rw [hpasses]
    rfl
  obtain ⟨flow, hflow, record, hrecord, hsentPackets, hreceivedPackets, hsent, hreceived⟩ :=
    stored_of_sightings hhandlers hloop (path_of_run hrun) hcalls (of_decide_eq_true hfinished)
      (s := requestSighting) List.mem_cons_self
  refine ⟨w, hrun, flow.key, record, hrecord, ?_⟩
  rw [hsentPackets, hreceivedPackets, hsent, hreceived]
  -- the stations are in either order
  rcases Flow.conversation_eq_iff.mp hflow with rfl | rfl <;> decide

end NetSentry
