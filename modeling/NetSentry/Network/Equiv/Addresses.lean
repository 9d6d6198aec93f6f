import NetSentry.Network.Equiv.HostTraffic
import NetSentry.Network.Equiv.InventedFlows

/-!
# The addresses that the analyzer holds

`addressed_of_run`: whatever has been captured and processed, the ends of the connections and the
hosts are empty or the dotted decimals of four bytes.
-/

namespace NetSentry

open Bytes

/-- The text of an address: empty, or dotted decimal. -/
def AddressText (s : Bytes) : Prop :=
  s = [] ∨ ∃ addr : Bytes, addr.length = 4 ∧ s = dottedDecimal addr

/-- The addresses of the packet are such texts. -/
def PacketInfo.Addressed (packet : PacketInfo) : Prop :=
  AddressText packet.sourceIp ∧ AddressText packet.destIp

namespace PacketCapture

theorem addressText_take {bytes : Bytes} {i : ℕ} (h : i + 4 ≤ bytes.length) :
    AddressText (dottedDecimal ((bytes.drop i).take 4)) := by
  refine .inr ⟨_, ?_, rfl⟩
  rw [List.length_take, List.length_drop]
  omega

/-- A captured packet has the addresses of its frame, or none. -/
theorem addressed_capturePacket {u : Indeterminate} {outcome : PcapOutcome} {packet : PacketInfo}
    (h : capturePacket u outcome = .ok packet) : packet.Addressed := by
  cases outcome with
  | none =>
    obtain rfl : PacketInfo.defaultInit u = packet := Except.ok.inj h
    exact ⟨.inl rfl, .inl rfl⟩
  | some pcap =>
    have hbounds := (capturePacket_defined_iff u (some pcap)).mp ⟨packet, h⟩ pcap rfl
    rw [capturePacket_some] at h
    by_cases hparsed : IsParsed pcap.bytes
    · rw [parsePacket_of_isParsed hparsed] at h
      obtain rfl := Except.ok.inj h
      exact ⟨addressText_take (by have := hparsed.1; omega), addressText_take hparsed.1⟩
    · rw [parsePacket_of_not_isParsed hbounds hparsed] at h
      obtain rfl := Except.ok.inj h
      exact ⟨.inl rfl, .inl rfl⟩

end PacketCapture

namespace PacketAnalyzer

open PacketCapture

/-- The addresses of the analyzer are such texts. -/
structure Addressed (a : PacketAnalyzer) : Prop where
  connections : ∀ key ∈ a.connections, AddressText key.sourceIp ∧ AddressText key.destIp
  hosts : ∀ ip ∈ a.hostTrafficStats, AddressText ip

theorem addressed_create (parsers : List ProtocolParser) : Addressed (create parsers) where
  connections := fun _ hkey => absurd hkey Finmap.notMem_empty
  hosts := fun _ hip => absurd hip Finmap.notMem_empty

theorem addressed_processPacket {a : PacketAnalyzer} (ha : Addressed a) {packet : PacketInfo}
    (h : packet.Addressed) : Addressed (a.processPacket packet) where
  connections := by
    intro key hkey
    rcases mem_connections_processPacket hkey with rfl | hold
    · rcases ends_createConnectionKey packet with ⟨hsource, hdest⟩ | ⟨hsource, hdest⟩
      · rw [hsource, hdest]
        exact h
      · rw [hsource, hdest]
        exact h.symm
    · exact ha.connections key hold
  hosts := by
    intro ip hip
    rcases Finmap.mem_insert.mp hip with rfl | hip
    · exact h.2
    rcases Finmap.mem_insert.mp hip with rfl | hip
    · exact h.1
    · exact ha.hosts ip hip

/-- **One call** keeps the addresses. -/
theorem addressed_call {a : PacketAnalyzer} (ha : Addressed a) {c : Call}
    (h : ∀ packet, c = .processPacket packet → packet.Addressed) : Addressed (a.call c) := by
  cases c with
  | processPacket packet => exact addressed_processPacket ha (h packet rfl)
  | reset =>
    exact ⟨(addressed_create a.protocolParsers).connections,
      (addressed_create a.protocolParsers).hosts⟩

/-- **Whatever has been captured**, in any order and with any resets, the addresses are such
texts. -/
theorem addressed_of_run {calls : List Call} {a : PacketAnalyzer} (ha : Addressed a)
    (h : ∀ packet, .processPacket packet ∈ calls → packet.Addressed) :
    Addressed (calls.foldl call a) := by
  induction calls generalizing a with
  | nil => exact ha
  | cons c calls ih =>
    have hcall : Addressed (a.call c) :=
      addressed_call ha fun packet hc => h packet (hc ▸ List.mem_cons_self)
    exact ih hcall fun packet hpacket => h packet (List.mem_cons_of_mem c hpacket)

end PacketAnalyzer

end NetSentry
