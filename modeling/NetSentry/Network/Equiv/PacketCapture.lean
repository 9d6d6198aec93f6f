import Mathlib.Data.List.GetD
import NetSentry.Network.PacketCapture

/-!
# Which frames are decoded inside their bounds

`parsePacket` checks that a frame has an Ethernet header and as many further bytes as the header
length nibble of its IPv4 header says, then reads the IPv4 header at fixed offsets up to 34.

* `parsePacket_defined_iff`: the exact condition under which every read is inside the frame.
* `capturePacket_defined_iff`: the same for every outcome of `pcap_next_ex`.
-/

namespace NetSentry.PacketCapture

open Bytes Checked

/-- The number of bytes the header length nibble of a frame stands for. -/
def ipHeaderLen (bytes : Bytes) : ℕ := (bytes.getD 14 0 &&& 0x0F).toNat * 4

/-- The frame has no complete Ethernet header; or the nibble is there, and either it asks for more
bytes than the frame has or the frame holds the 20 bytes of the fixed IPv4 header. -/
def DecodesInBounds (bytes : Bytes) : Prop :=
  bytes.length < 14 ∨
    (15 ≤ bytes.length ∧ (bytes.length < 14 + ipHeaderLen bytes ∨ 34 ≤ bytes.length))

instance (bytes : Bytes) : Decidable (DecodesInBounds bytes) :=
  inferInstanceAs (Decidable (_ ∨ _ ∧ (_ ∨ _)))

/-- With the fixed IPv4 header captured, the ports are read only where they are captured. -/
theorem parsePacket_defined_of_le (packet : PacketInfo) {bytes : Bytes} (h : 34 ≤ bytes.length) :
    Defined (parsePacket packet bytes bytes.length) := by
  have hports : ∀ (result : UInt16 → UInt16 → PacketInfo) (offset : ℕ), offset + 4 ≤ bytes.length →
      Defined (do
        let sourcePort ← readWord bytes offset
        let destPort ← readWord bytes (offset + 2)
        pure (result sourcePort destPort)) := by
    intro result offset hoffset
    rw [readWord_of_lt (show offset + 1 < bytes.length by omega),
      readWord_of_lt (show offset + 2 + 1 < bytes.length by omega)]
    exact defined_pure _
  unfold parsePacket
  rw [if_neg (by omega), readAt_of_lt (show 14 < bytes.length by omega)]
  simp only [bind_ok]
  split_ifs with hlen
  · exact defined_pure _
  · rw [readAt_of_lt (show 14 + 9 < bytes.length by omega),
      rangeAt_of_le (show 14 + 12 ≤ 14 + 12 + 4 by omega) (by omega),
      rangeAt_of_le (show 14 + 16 ≤ 14 + 16 + 4 by omega) (by omega)]
    simp only [bind_ok]
    split_ifs with htcp hudp
    · exact hports (fun _ _ => _) _ (by have := htcp.2; omega)
    · exact hports (fun _ _ => _) _ (by have := hudp.2; omega)
    · exact defined_pure _

/-- **Which frames `parsePacket` decodes inside their bounds.** -/
theorem parsePacket_defined_iff (packet : PacketInfo) (bytes : Bytes) :
    Defined (parsePacket packet bytes bytes.length) ↔ DecodesInBounds bytes := by
  rcases Nat.lt_or_ge bytes.length 14 with h14 | h14
  · rw [parsePacket, if_pos h14]
    exact ⟨fun _ => .inl h14, fun _ => defined_pure _⟩
  rcases Nat.lt_or_ge bytes.length 34 with h34 | h34
  · rcases Nat.lt_or_ge 14 bytes.length with h15 | h15
    · have hnibble : ipHeaderLen bytes = (bytes[14] &&& 0x0F).toNat * 4 := by
        rw [ipHeaderLen, List.getD_eq_getElem _ _ h15]
      unfold parsePacket
      rw [if_neg (by omega), readAt_of_lt h15]
      simp only [bind_ok, ← hnibble]
      split_ifs with hlen
      · exact ⟨fun _ => .inr ⟨h15, .inl hlen⟩, fun _ => defined_pure _⟩
      · -- the destination address ends at offset 34
        constructor
        · intro h
          obtain ⟨_, _, h⟩ := defined_bind.mp h
          obtain ⟨_, _, h⟩ := defined_bind.mp h
          obtain ⟨_, hdst, _⟩ := defined_bind.mp h
          have := (defined_rangeAt.mp ⟨_, hdst⟩).2
          omega
        · rintro (h | ⟨_, h | h⟩) <;> omega
    · -- the byte of the nibble is past the frame
      rw [parsePacket, if_neg (by omega)]
      constructor
      · intro h
        obtain ⟨_, hnibble, _⟩ := defined_bind.mp h
        have := defined_readAt.mp ⟨_, hnibble⟩
        omega
      · rintro (h | ⟨h, _⟩) <;> omega
  · exact ⟨fun _ => .inr ⟨by omega, .inr h34⟩, fun _ => parsePacket_defined_of_le packet h34⟩

/-- **Which outcomes of `pcap_next_ex` are decoded inside the captured bytes.** -/
theorem capturePacket_defined_iff (u : Indeterminate) (outcome : PcapOutcome) :
    Defined (capturePacket u outcome) ↔ ∀ pcap ∈ outcome, DecodesInBounds pcap.bytes := by
  cases outcome with
  | none => simp [capturePacket]
  | some pcap =>
    have hcopy : rangeAt pcap.bytes 0 pcap.bytes.length = .ok pcap.bytes := by
      rw [rangeAt_of_le (Nat.zero_le _) le_rfl]
      simp
    rw [capturePacket]
    simp only [hcopy, bind_ok]
    rw [parsePacket_defined_iff]
    simp

/-- A captured frame that ends with its Ethernet header. -/
def headerOnlyFrame : PcapPacket where
  tvSec := 0
  tvUsec := 0
  len := 14
  bytes := [255, 255, 255, 255, 255, 255, 2, 0, 0, 0, 0, 1, 8, 0]

theorem not_forall_capturePacket_defined :
    ¬ ∀ (u : Indeterminate) (outcome : PcapOutcome), Defined (capturePacket u outcome) := by
  intro h
  have hdef := h ⟨0, 0, 0, 0, 0⟩ (some headerOnlyFrame)
  have hfault : capturePacket ⟨0, 0, 0, 0, 0⟩ (some headerOnlyFrame)
      = .error (.outOfBounds 14 14) := by decide +kernel
  rw [hfault] at hdef
  exact not_defined_error _ hdef

end NetSentry.PacketCapture
