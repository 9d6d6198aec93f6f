import NetSentry.Core.Equiv.CircularBuffer
import NetSentry.Network.PacketAnalyzer
import NetSentry.Network.PacketCapture

/-!
# The packet histories

The analyzer keeps packets in `recent_packets_`, the capture in `packet_buffer_`.  Both only push,
nobody takes a packet out, and what `push` answers is ignored, so that a full buffer stays as it is.

* `PacketAnalyzer.recentPackets_foldl_call`, `PacketCapture.packetBuffer_foldl_call`: the packets
  each holds after a run are the first ones.
* `history_recent_iff`: they are the last ones exactly when there are no more packets than slots, or
  the packets repeat with a period of as many packets as there are too many.
-/

namespace NetSentry

open CircularBuffer

/-- The packets of a run of the analyzer, in the order of their calls. -/
def PacketAnalyzer.packets (calls : List PacketAnalyzer.Call) : List PacketInfo :=
  calls.filterMap fun
    | .processPacket packet => some packet
    | .reset => none

/-- The analyzer keeps the first packets; starting over does not change them. -/
theorem PacketAnalyzer.recentPackets_foldl_call (a : PacketAnalyzer)
    (calls : List PacketAnalyzer.Call) :
    (calls.foldl PacketAnalyzer.call a).recentPackets
      = (packets calls).foldl (fun b packet => (b.push packet).2) a.recentPackets := by
  induction calls generalizing a with
  | nil => rfl
  | cons c calls ih =>
    rw [List.foldl_cons, ih]
    cases c with
    | processPacket packet => rfl
    | reset => rfl

/-- The capture keeps the first packets, whatever handlers there are. -/
theorem PacketCapture.packetBuffer_foldl_call {η : Type*} (c : PacketCapture η)
    (calls : List (PacketCapture.Call η)) :
    (calls.foldl PacketCapture.call c).packetBuffer
      = (packetsOf calls).foldl (fun b packet => (b.push packet).2) c.packetBuffer := by
  induction calls generalizing c with
  | nil => rfl
  | cons call calls ih =>
    rw [List.foldl_cons, ih]
    cases call with
    | registerHandler handler => rfl
    | processPacket packet => rfl

/-- A buffer that is only pushed into holds the last items exactly when they are the first ones. -/
theorem contents_eq_last_iff {α : Type*} (capacity : ℕ) (xs : List α) :
    (xs.foldl (fun b x => (b.push x).2) (empty : CircularBuffer α capacity)).contents
        = (xs.drop (xs.length - min xs.length capacity)).map some ↔
      xs.length ≤ capacity ∨
        ∀ i, i + (xs.length - capacity) < xs.length →
          xs[i + (xs.length - capacity)]? = xs[i]? := by
  have hlast : xs.length - min xs.length capacity = xs.length - capacity := by omega
  rw [(represents_foldl_push xs).contents_eq, hlast,
    (List.map_injective_iff.mpr (Option.some_injective α)).eq_iff, take_eq_drop_iff]
  constructor
  · exact Or.inr
  · rintro (hle | hperiod)
    · intro i _
      rw [Nat.sub_eq_zero_of_le hle, Nat.add_zero]
    · exact hperiod

/-- **The histories are the recent ones** in just those runs: of at most as many packets as there
are slots, or of packets that repeat with the period of those that are too many. -/
theorem history_recent_iff (parsers : List ProtocolParser) (calls : List PacketAnalyzer.Call)
    {η : Type*} (captureCalls : List (PacketCapture.Call η)) :
    let analyzed := PacketAnalyzer.packets calls
    let captured := PacketCapture.packetsOf captureCalls
    ((calls.foldl PacketAnalyzer.call (.create parsers)).recentPackets.contents
          = (analyzed.drop (analyzed.length - min analyzed.length 1000)).map some ↔
        analyzed.length ≤ 1000 ∨
          ∀ i, i + (analyzed.length - 1000) < analyzed.length →
            analyzed[i + (analyzed.length - 1000)]? = analyzed[i]?) ∧
      ((captureCalls.foldl PacketCapture.call .create).packetBuffer.contents
          = (captured.drop (captured.length - min captured.length 1024)).map some ↔
        captured.length ≤ 1024 ∨
          ∀ i, i + (captured.length - 1024) < captured.length →
            captured[i + (captured.length - 1024)]? = captured[i]?) := by
  intro analyzed captured
  rw [PacketAnalyzer.recentPackets_foldl_call, PacketCapture.packetBuffer_foldl_call]
  exact ⟨contents_eq_last_iff 1000 analyzed, contents_eq_last_iff 1024 captured⟩

/-- A packet that only its capture time tells from the others. -/
def packetAt (timestamp : ℕ) : PacketInfo where
  data := []
  size := 60
  sourceIp := Bytes.ascii "10.0.0.9"
  destIp := Bytes.ascii "10.0.0.1"
  sourcePort := 40000
  destPort := 53
  protocol := IPPROTO_UDP
  timestamp := timestamp.toUInt64

/-- Of packets that differ, one more than there are slots leaves the oldest one in the buffer and
the newest one out of it. -/
theorem packetAt_not_recent {capacity : ℕ} (hpos : 0 < capacity) :
    let packets := (List.range (capacity + 1)).map packetAt
    (packets.foldl (fun b packet => (b.push packet).2)
        (empty : CircularBuffer PacketInfo capacity)).contents
      ≠ (packets.drop (packets.length - min packets.length capacity)).map some := by
  intro packets hrecent
  have hlength : packets.length = capacity + 1 := by
    rw [List.length_map, List.length_range]
  rcases (contents_eq_last_iff capacity packets).mp hrecent with hle | hperiod
  · omega
  · have hsame := hperiod 0 (by omega)
    rw [hlength, Nat.add_sub_cancel_left, Nat.zero_add] at hsame
    have hfirst : packets[0]? = some (packetAt 0) := by simp [packets]
    have hsecond : packets[1]? = some (packetAt 1) := by simp [packets, hpos]
    rw [hfirst, hsecond] at hsame
    exact absurd (Option.some.inj hsame) (by decide)

/-- A thousand and one packets for the analyzer, and a thousand and twenty-five for the capture. -/
theorem history_not_recent :
    let analyzed := (List.range 1001).map packetAt
    let captured := (List.range 1025).map packetAt
    ((analyzed.map .processPacket).foldl PacketAnalyzer.call (.create [])).recentPackets.contents
        ≠ (analyzed.drop (analyzed.length - min analyzed.length 1000)).map some ∧
      ((captured.map .processPacket).foldl PacketCapture.call
          (.create : PacketCapture Unit)).packetBuffer.contents
        ≠ (captured.drop (captured.length - min captured.length 1024)).map some := by
  intro analyzed captured
  have hanalyzed : PacketAnalyzer.packets (analyzed.map .processPacket) = analyzed := by
    rw [PacketAnalyzer.packets, List.filterMap_map]
    exact List.filterMap_some
  have hcaptured : PacketCapture.packetsOf
      (captured.map .processPacket : List (PacketCapture.Call Unit)) = captured := by
    rw [PacketCapture.packetsOf, List.filterMap_map]
    exact List.filterMap_some
  rw [PacketAnalyzer.recentPackets_foldl_call, hanalyzed, PacketCapture.packetBuffer_foldl_call,
    hcaptured]
  exact ⟨packetAt_not_recent (by decide), packetAt_not_recent (by decide)⟩

end NetSentry
