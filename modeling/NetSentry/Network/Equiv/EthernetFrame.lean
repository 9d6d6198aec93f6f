import Mathlib.Tactic.IntervalCases
import NetSentry.Network.EthernetFrame
import NetSentry.Network.Equiv.CaptureLoop
import NetSentry.Network.Equiv.ConnectionKey

/-!
# Decoding IPv4 frames

`parsePacket_encode`: on the captured bytes of a frame with IPv4, `parsePacket` assigns what the
frame says.  Its offsets past the IPv4 header all come from the length of that header, which the
frame gives in its first byte (`ipHeaderLen_encode`).
-/

namespace NetSentry.EthernetFrame

open Bytes PacketCapture

/-! ### Where the fields are -/

theorem length_ethernetHeader (frame : EthernetFrame) : frame.ethernetHeader.length = 14 := by
  simp [ethernetHeader, frame.destMac.2, frame.sourceMac.2]

theorem length_fixedHeader (frame : EthernetFrame) : frame.fixedHeader.length = 12 := rfl

theorem headerWords_mul_four (frame : EthernetFrame) :
    frame.headerWords * 4 = 20 + frame.options.1.length := by
  have := frame.options.2.1
  rw [headerWords]
  omega

theorem length_encode (frame : EthernetFrame) :
    frame.encode.length = 34 + frame.options.1.length + frame.segment.encode.length := by
  simp only [encode, List.length_append, frame.length_ethernetHeader, frame.length_fixedHeader,
    frame.sourceAddr.2, frame.destAddr.2]
  omega

/-- The frame from its IPv4 header on. -/
theorem drop_14_encode (frame : EthernetFrame) :
    frame.encode.drop 14 = frame.fixedHeader ++ (frame.sourceAddr.1 ++ (frame.destAddr.1 ++
      (frame.options.1 ++ frame.segment.encode))) :=
  List.drop_left' frame.length_ethernetHeader

theorem getD_encode (frame : EthernetFrame) (i : ℕ) :
    frame.encode.getD (14 + i) 0 = (frame.encode.drop 14).getD i 0 := by
  rw [List.getD_eq_getElem?_getD, List.getD_eq_getElem?_getD, List.getElem?_drop]

/-- The low half of the first byte is the length of the header in words. -/
theorem headerWords_and_0x0F {n : ℕ} (h5 : 5 ≤ n) (h15 : n ≤ 15) :
    ((0x40 + n).toUInt8 &&& 0x0F).toNat = n := by
  interval_cases n <;> rfl

theorem ipHeaderLen_encode (frame : EthernetFrame) :
    ipHeaderLen frame.encode = 20 + frame.options.1.length := by
  have hoptions := frame.options.2.2
  have hfirst : frame.encode.getD 14 0 = (0x40 + frame.headerWords).toUInt8 := by
    rw [getD_encode frame 0, drop_14_encode]
    rfl
  have hwords := frame.headerWords_mul_four
  rw [ipHeaderLen, hfirst, headerWords_and_0x0F (by omega) (by omega), hwords]

theorem protocol_encode (frame : EthernetFrame) :
    frame.encode.getD 23 0 = frame.segment.protocol := by
  rw [getD_encode frame 9, drop_14_encode]
  rfl

theorem sourceAddr_encode (frame : EthernetFrame) :
    (frame.encode.drop 26).take 4 = frame.sourceAddr.1 := by
  rw [show (26 : ℕ) = 14 + 12 from rfl, ← List.drop_drop, drop_14_encode,
    List.drop_left' frame.length_fixedHeader, List.take_left' frame.sourceAddr.2]

theorem destAddr_encode (frame : EthernetFrame) :
    (frame.encode.drop 30).take 4 = frame.destAddr.1 := by
  rw [show (30 : ℕ) = 14 + 12 + 4 from rfl, ← List.drop_drop, ← List.drop_drop, drop_14_encode,
    List.drop_left' frame.length_fixedHeader, List.drop_left' frame.sourceAddr.2,
    List.take_left' frame.destAddr.2]

/-- The frame behind its IPv4 header. -/
theorem drop_header_encode (frame : EthernetFrame) :
    frame.encode.drop (14 + ipHeaderLen frame.encode) = frame.segment.encode := by
  rw [ipHeaderLen_encode,
    show 14 + (20 + frame.options.1.length) = 14 + 12 + 4 + 4 + frame.options.1.length by omega,
    ← List.drop_drop, ← List.drop_drop, ← List.drop_drop, ← List.drop_drop, drop_14_encode,
    List.drop_left' frame.length_fixedHeader, List.drop_left' frame.sourceAddr.2,
    List.drop_left' frame.destAddr.2, List.drop_left]

/-! ### The ports -/

theorem isParsed_encode (frame : EthernetFrame) : IsParsed frame.encode := by
  rw [IsParsed, ipHeaderLen_encode, length_encode]
  omega

theorem getD_segment (frame : EthernetFrame) (i : ℕ) :
    frame.encode.getD (14 + ipHeaderLen frame.encode + i) 0 = frame.segment.encode.getD i 0 := by
  rw [← drop_header_encode, List.getD_eq_getElem?_getD, List.getD_eq_getElem?_getD,
    List.getElem?_drop]

/-- A segment that is long enough leads with the two ports that are read of it. -/
theorem portAt_encode_of_hasPorts {frame : EthernetFrame} {sourcePort destPort : UInt16}
    {rest : Bytes} (hports : HasPorts frame.encode)
    (hsegment : frame.segment.encode = encode16 sourcePort ++ (encode16 destPort ++ rest)) :
    portAt frame.encode (14 + ipHeaderLen frame.encode) = sourcePort ∧
      portAt frame.encode (14 + ipHeaderLen frame.encode + 2) = destPort := by
  have hat := frame.getD_segment
  rw [hsegment] at hat
  have hfirst := hat 0
  rw [Nat.add_zero] at hfirst
  rw [portAt, portAt, if_pos hports, if_pos hports, Nat.add_assoc _ 2 1, hfirst, hat 1, hat 2,
    hat (2 + 1)]
  exact ⟨be16_encode16 _, be16_encode16 _⟩

/-- The ports of a frame are those of its segment. -/
theorem portAt_encode (frame : EthernetFrame) :
    portAt frame.encode (14 + ipHeaderLen frame.encode) = frame.segment.sourcePort ∧
      portAt frame.encode (14 + ipHeaderLen frame.encode + 2) = frame.segment.destPort := by
  have hprotocol := frame.protocol_encode
  have hlen := frame.length_encode
  have hheader := frame.ipHeaderLen_encode
  cases hcase : frame.segment with
  | tcp sourcePort destPort rest complete =>
    rw [hcase] at hprotocol hlen
    have hports : HasPorts frame.encode := by
      refine .inl ⟨hprotocol, ?_⟩
      simp only [Segment.encode, List.length_append, length_encode16] at hlen
      omega
    exact portAt_encode_of_hasPorts hports (congrArg Segment.encode hcase)
  | udp sourcePort destPort rest complete =>
    rw [hcase] at hprotocol hlen
    have hports : HasPorts frame.encode := by
      refine .inr ⟨hprotocol, ?_⟩
      simp only [Segment.encode, List.length_append, length_encode16] at hlen
      omega
    exact portAt_encode_of_hasPorts hports (congrArg Segment.encode hcase)
  | other protocol bytes not_tcp not_udp =>
    rw [hcase] at hprotocol
    have hports : ¬ HasPorts frame.encode := by
      rintro (⟨htcp, _⟩ | ⟨hudp, _⟩)
      · exact not_tcp (hprotocol.symm.trans htcp)
      · exact not_udp (hprotocol.symm.trans hudp)
    rw [portAt, portAt, if_neg hports, if_neg hports]
    exact ⟨rfl, rfl⟩

/-! ### Whole frames -/

theorem decoded_encode (frame : EthernetFrame) (packet : PacketInfo) :
    decoded frame.encode packet = frame.describe packet := by
  rw [decoded, protocol_encode, sourceAddr_encode, destAddr_encode, frame.portAt_encode.1,
    frame.portAt_encode.2]
  rfl

/-- **Decoding a frame.** -/
theorem parsePacket_encode (frame : EthernetFrame) (packet : PacketInfo) :
    parsePacket packet frame.encode frame.encode.length = .ok (frame.describe packet) := by
  rw [parsePacket_of_isParsed frame.isParsed_encode, decoded_encode]

theorem describe_reverse (frame : EthernetFrame) (packet : PacketInfo) :
    frame.reverse.describe packet = (frame.describe packet).swapEnds := by
  simp [describe, reverse, PacketInfo.swapEnds]

/-- A frame and its answer belong to one conversation. -/
theorem conversation_describe_reverse (frame : EthernetFrame) (packet packet' : PacketInfo) :
    (frame.reverse.describe packet').conversation = (frame.describe packet).conversation := by
  rw [describe_reverse]
  exact Prod.ext rfl Sym2.eq_swap

/-- **IPv4 frames are decoded correctly**: a frame assigns to a packet its protocol, the texts of
its addresses and its ports; the frame with addresses and ports swapped assigns the same with the
ends swapped, and the two packets have one connection key. -/
theorem parsePacket_decodes (frame : EthernetFrame) (packet packet' : PacketInfo) :
    parsePacket packet frame.encode frame.encode.length = .ok (frame.describe packet) ∧
    parsePacket packet' frame.reverse.encode frame.reverse.encode.length
      = .ok (frame.describe packet').swapEnds ∧
    PacketAnalyzer.createConnectionKey (frame.describe packet').swapEnds
      = PacketAnalyzer.createConnectionKey (frame.describe packet) := by
  refine ⟨frame.parsePacket_encode packet, ?_, ?_⟩
  · rw [parsePacket_encode, describe_reverse]
  · rw [← describe_reverse]
    exact PacketAnalyzer.createConnectionKey_eq_iff.mpr
      (frame.conversation_describe_reverse packet packet')

end NetSentry.EthernetFrame
