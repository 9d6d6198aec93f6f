import Mathlib.Data.List.Forall2
import NetSentry.Network.Equiv.PacketCapture

/-!
# What the capture loop depends on

`capturePacket` fills in a packet whose integers are indeterminate, and returns early with some of
them unassigned.  What the loop does is determined by the outcomes of `pcap_next_ex` exactly when
each of them is a packet that is decoded inside its bounds and either has the length zero or is
decoded as far as its ports (`dependsOnOutcomes_iff`).

* `parsePacket_of_isParsed`, `parsePacket_of_not_isParsed`: the packet that is made of a frame.
* `captureThreadFunc_eq`: what the loop does, given what it decides for each outcome.
-/

namespace NetSentry.PacketCapture

open Bytes Checked

/-! ### One packet -/

/-- The frame is decoded: it has a complete IPv4 header, as long as its first byte says. -/
def IsParsed (bytes : Bytes) : Prop := 34 ≤ bytes.length ∧ 14 + ipHeaderLen bytes ≤ bytes.length

instance (bytes : Bytes) : Decidable (IsParsed bytes) := inferInstanceAs (Decidable (_ ∧ _))

/-- The packet before it is decoded: the members that `capturePacket` assigns. -/
def undecoded (u : Indeterminate) (pcap : PcapPacket) : PacketInfo :=
  { PacketInfo.defaultInit u with
    timestamp := pcap.tvSec.toUInt64 * 1000000 + pcap.tvUsec.toUInt64
    size := pcap.len.toUInt64
    data := pcap.bytes }

theorem capturePacket_some (u : Indeterminate) (pcap : PcapPacket) :
    capturePacket u (some pcap)
      = parsePacket (undecoded u pcap) pcap.bytes pcap.bytes.length := by
  have hcopy : rangeAt pcap.bytes 0 pcap.bytes.length = .ok pcap.bytes := by
    rw [rangeAt_of_le (Nat.zero_le _) le_rfl]
    simp
  rw [capturePacket]
  simp only [hcopy, bind_ok]
  rfl

/-- A frame that is not decoded leaves the packet as it is. -/
theorem parsePacket_of_not_isParsed {bytes : Bytes} (hbounds : DecodesInBounds bytes)
    (h : ¬ IsParsed bytes) (packet : PacketInfo) :
    parsePacket packet bytes bytes.length = .ok packet := by
  unfold parsePacket
  by_cases h14 : bytes.length < 14
  · rw [if_pos h14]
    rfl
  · have hcases := hbounds.resolve_left h14
    have hnibble : (bytes[14] &&& 0x0F).toNat * 4 = ipHeaderLen bytes := by
      rw [ipHeaderLen, List.getD_eq_getElem]
    have hshort : bytes.length < 14 + ipHeaderLen bytes := by
      rcases hcases.2 with hshort | h34
      · exact hshort
      · exact Nat.lt_of_not_le fun hle => h ⟨h34, hle⟩
    rw [if_neg h14, readAt_of_lt (show 14 < bytes.length by omega)]
    simp only [bind_ok, hnibble]
    rw [if_pos hshort]
    rfl

/-- The ports of a decoded frame are captured, and read from its transport header. -/
def HasPorts (bytes : Bytes) : Prop :=
  (bytes.getD 23 0 = IPPROTO_TCP ∧ 14 + ipHeaderLen bytes + 20 ≤ bytes.length) ∨
    (bytes.getD 23 0 = IPPROTO_UDP ∧ 14 + ipHeaderLen bytes + 8 ≤ bytes.length)

instance (bytes : Bytes) : Decidable (HasPorts bytes) := inferInstanceAs (Decidable (_ ∨ _))

/-- The big-endian number at `i` of a decoded frame that has ports, and zero where it has none. -/
def portAt (bytes : Bytes) (i : ℕ) : UInt16 :=
  if HasPorts bytes then be16 (bytes.getD i 0) (bytes.getD (i + 1) 0) else 0

/-- What a decoded frame makes of a packet: it assigns the protocol, the addresses and the ports. -/
def decoded (bytes : Bytes) (packet : PacketInfo) : PacketInfo :=
  { packet with
    protocol := bytes.getD 23 0
    sourceIp := dottedDecimal ((bytes.drop 26).take 4)
    destIp := dottedDecimal ((bytes.drop 30).take 4)
    sourcePort := portAt bytes (14 + ipHeaderLen bytes)
    destPort := portAt bytes (14 + ipHeaderLen bytes + 2) }

theorem readWord_portAt {bytes : Bytes} (h : HasPorts bytes) {i : ℕ} (hi : i + 1 < bytes.length) :
    readWord bytes i = .ok (portAt bytes i) := by
  rw [portAt, if_pos h, readWord_of_lt hi, List.getD_eq_getElem _ _ hi,
    List.getD_eq_getElem _ _ (Nat.lt_of_succ_lt hi)]

theorem parsePacket_of_isParsed {bytes : Bytes} (h : IsParsed bytes) (packet : PacketInfo) :
    parsePacket packet bytes bytes.length = .ok (decoded bytes packet) := by
  obtain ⟨h34, hle⟩ := h
  have hnibble : (bytes[14] &&& 0x0F).toNat * 4 = ipHeaderLen bytes := by
    rw [ipHeaderLen, List.getD_eq_getElem]
  have hprotocol : bytes[14 + 9] = bytes.getD 23 0 := by rw [List.getD_eq_getElem]
  unfold parsePacket
  rw [if_neg (show ¬ bytes.length < 14 by omega),
    readAt_of_lt (show 14 < bytes.length by omega)]
  simp only [bind_ok, hnibble]
  rw [if_neg (show ¬ bytes.length < 14 + ipHeaderLen bytes by omega),
    readAt_of_lt (show 14 + 9 < bytes.length by omega),
    rangeAt_of_le (show 14 + 12 ≤ 14 + 12 + 4 by omega) (by omega),
    rangeAt_of_le (show 14 + 16 ≤ 14 + 16 + 4 by omega) (by omega)]
  simp only [bind_ok, hprotocol]
  by_cases hports : HasPorts bytes
  · have hlen : 14 + ipHeaderLen bytes + 8 ≤ bytes.length := by
      rcases hports with ⟨_, h⟩ | ⟨_, h⟩ <;> omega
    rw [readWord_portAt hports (by omega), readWord_portAt hports (by omega)]
    split_ifs with htcp hudp
    · rfl
    · rfl
    · exact absurd hports (not_or.mpr ⟨htcp, hudp⟩)
  · have hzero : ∀ i, portAt bytes i = 0 := fun i => if_neg hports
    rw [if_neg fun h => hports (.inl h), if_neg fun h => hports (.inr h), decoded, hzero, hzero]
    rfl

/-! ### One pass of the loop -/

/-- The packet that a pass hands to `processPacket`, if any. -/
def decision (u : Indeterminate) (outcome : PcapOutcome) : Checked (Option PacketInfo) := do
  let packet ← capturePacket u outcome
  pure (if 0 < packet.size then some packet else none)

/-- The outcome alone determines what the pass does: a packet that is decoded inside its bounds and
either counts no bytes or is decoded as far as its ports. -/
def Determined (outcome : PcapOutcome) : Prop :=
  ∃ pcap ∈ outcome, DecodesInBounds pcap.bytes ∧ (pcap.len = 0 ∨ IsParsed pcap.bytes)

instance (outcome : PcapOutcome) : Decidable (Determined outcome) :=
  match outcome with
  | none => isFalse fun h => nomatch h
  | some pcap => decidable_of_iff (DecodesInBounds pcap.bytes ∧
      (pcap.len = 0 ∨ IsParsed pcap.bytes)) (by simp [Determined])

/-- The packet that is processed for an outcome that determines it. -/
def processed : PcapOutcome → Option PacketInfo
  | none => none
  | some pcap =>
    if pcap.len = 0 then none
    else some (decoded pcap.bytes (undecoded ⟨0, 0, 0, 0, 0⟩ pcap))

/-- What is decided for a packet of the length that the header states. -/
theorem ite_size_pos {packet : PacketInfo} {len : UInt32} (h : packet.size = len.toUInt64) :
    (if 0 < packet.size then some packet else none) = if len = 0 then none else some packet := by
  have hpos : 0 < packet.size ↔ len ≠ 0 := by
    rw [h, UInt64.lt_iff_toNat_lt, UInt32.toNat_toUInt64, ← UInt32.toNat_inj.ne]
    exact Nat.pos_iff_ne_zero
  by_cases hlen : len = 0
  · rw [if_pos hlen, if_neg fun h => hpos.mp h hlen]
  · rw [if_neg hlen, if_pos (hpos.mpr hlen)]

/-- **A determined outcome** is decided alike whatever the members of the packet hold. -/
theorem decision_of_determined {outcome : PcapOutcome} (h : Determined outcome)
    (u : Indeterminate) : decision u outcome = .ok (processed outcome) := by
  obtain ⟨pcap, rfl, hbounds, hcases⟩ := h
  rw [decision, capturePacket_some, processed]
  by_cases hparsed : IsParsed pcap.bytes
  · rw [parsePacket_of_isParsed hparsed, bind_ok, ite_size_pos rfl]
    rfl
  · have hlen := hcases.resolve_right hparsed
    rw [parsePacket_of_not_isParsed hbounds hparsed, bind_ok, ite_size_pos rfl,
      if_pos hlen, if_pos hlen]
    rfl

/-- **An outcome that is decided alike** whatever the members hold, and by nothing where there is no
packet, determines the packet. -/
theorem determined_of_decision {outcome : PcapOutcome} {packet : Option PacketInfo}
    (h : ∀ u, decision u outcome = .ok packet) (hnone : outcome = none → packet = none) :
    Determined outcome := by
  cases outcome with
  | none =>
    -- with a positive size in the packet it would be processed
    have hsize := h ⟨1, 0, 0, 0, 0⟩
    rw [hnone rfl] at hsize
    exact absurd (Except.ok.inj hsize) (by simp [PacketInfo.defaultInit])
  | some pcap =>
    have hbounds : DecodesInBounds pcap.bytes := by
      obtain ⟨captured, hcaptured, _⟩ := defined_bind.mp ⟨packet, h ⟨0, 0, 0, 0, 0⟩⟩
      exact (capturePacket_defined_iff _ _).mp ⟨captured, hcaptured⟩ pcap rfl
    refine ⟨pcap, rfl, hbounds, or_iff_not_imp_right.mpr fun hparsed => ?_⟩
    by_contra hlen
    -- the protocol of the packet is what it happens to hold
    have hdecision : ∀ u, decision u (some pcap) = .ok (some (undecoded u pcap)) := by
      intro u
      rw [decision, capturePacket_some, parsePacket_of_not_isParsed hbounds hparsed, bind_ok,
        ite_size_pos rfl, if_neg hlen]
      rfl
    have hsame := (hdecision ⟨0, 0, 0, 0, 0⟩).symm.trans
      ((h _).trans ((h _).symm.trans (hdecision ⟨0, 0, 0, 1, 0⟩)))
    have hprotocol : (0 : UInt8) = 1 :=
      congrArg PacketInfo.protocol (Option.some.inj (Except.ok.inj hsame))
    exact absurd hprotocol (by decide)

/-! ### The loop -/

section Loop

variable {η : Type}

/-- What a pass does that hands the given packet to `processPacket`, or none. -/
def process (c : PacketCapture η) : Option PacketInfo → List (η × PacketInfo) × PacketCapture η
  | some packet => c.processPacket packet
  | none => ([], c)

/-- What the passes do that hand the given packets to `processPacket`. -/
def processAll (c : PacketCapture η) :
    List (Option PacketInfo) → List (List (η × PacketInfo) × PacketCapture η)
  | [] => []
  | packet :: packets => c.process packet :: (c.process packet).2.processAll packets

theorem capturePass_eq (c : PacketCapture η) (u : Indeterminate) (outcome : PcapOutcome) :
    c.capturePass u outcome = c.process <$> decision u outcome := by
  rw [capturePass, decision, map_bind]
  congr 1
  funext packet
  split_ifs <;> rfl

/-- Processing different packets is told apart where there is a handler. -/
theorem process_injective {c : PacketCapture η} {handler : η} (h : c.handlers = [handler]) :
    Function.Injective c.process := by
  rintro (_ | packet) (_ | packet') hsame
  · rfl
  · exact absurd (congrArg Prod.fst hsame) (by simp [process, processPacket, h])
  · exact absurd (congrArg Prod.fst hsame) (by simp [process, processPacket, h])
  · have hcalls := congrArg Prod.fst hsame
    simp only [process, processPacket, h, List.map_cons, List.map_nil, List.cons.injEq,
      Prod.mk.injEq, true_and, and_true] at hcalls
    rw [hcalls]

theorem handlers_process (c : PacketCapture η) (packet : Option PacketInfo) :
    (c.process packet).2.handlers = c.handlers := by
  cases packet <;> rfl

/-- **The loop processes what its passes decide.** -/
theorem captureThreadFunc_eq (c : PacketCapture η) {passes : List (Indeterminate × PcapOutcome)}
    {packets : List (Option PacketInfo)}
    (h : List.Forall₂ (fun pass packet => decision pass.1 pass.2 = .ok packet) passes packets) :
    c.captureThreadFunc passes = .ok (c.processAll packets) := by
  induction h generalizing c with
  | nil => rfl
  | cons hpass _ ih =>
    rw [captureThreadFunc, capturePass_eq, hpass]
    simp only [Except.map_ok, bind_ok, ih]
    rfl

/-- With a handler, what the loop does says what its passes decided. -/
theorem decision_of_captureThreadFunc {c : PacketCapture η} {handler : η}
    (hhandlers : c.handlers = [handler]) {passes : List (Indeterminate × PcapOutcome)}
    {packets : List (Option PacketInfo)} (hlength : passes.length = packets.length)
    (h : c.captureThreadFunc passes = .ok (c.processAll packets)) :
    List.Forall₂ (fun pass packet => decision pass.1 pass.2 = .ok packet) passes packets := by
  -- the calls of the handler in one pass say what it decided; the rest of the loop is the same
  induction passes generalizing c packets with
  | nil =>
    rw [List.eq_nil_of_length_eq_zero hlength.symm]
    exact .nil
  | cons pass passes ih =>
    obtain ⟨packet, packets, rfl⟩ := List.exists_cons_of_length_pos
      (hlength.symm ▸ Nat.succ_pos _ : 0 < packets.length)
    rw [captureThreadFunc, capturePass_eq] at h
    cases hpass : decision pass.1 pass.2 with
    | error fault =>
      rw [hpass] at h
      cases h
    | ok decided =>
      rw [hpass] at h
      simp only [Except.map_ok, bind_ok] at h
      cases hrest : (c.process decided).2.captureThreadFunc passes with
      | error fault =>
        rw [hrest] at h
        cases h
      | ok rest =>
        rw [hrest] at h
        have hsame := Except.ok.inj h
        rw [processAll, List.cons.injEq] at hsame
        obtain rfl := process_injective hhandlers hsame.1
        refine .cons hpass (ih ((handlers_process c decided).trans hhandlers) ?_ ?_)
        · simpa using hlength
        · rw [hrest, hsame.2]

end Loop

/-- What the loop does is determined by what was captured: there is a rule which packet, if any, is
processed for an outcome, none where there is no packet, and whatever the members of the packets
hold before they are assigned, the loop processes the packets that the rule says. -/
def DependsOnOutcomes (outcomes : List PcapOutcome) : Prop :=
  ∃ rule : PcapOutcome → Option PacketInfo, rule none = none ∧
    ∀ (η : Type) (c : PacketCapture η) (us : List Indeterminate), us.length = outcomes.length →
      c.captureThreadFunc (us.zip outcomes) = .ok (c.processAll (outcomes.map rule))

/-- **What the loop does is determined by what was captured** exactly where each outcome determines
its packet. -/
theorem dependsOnOutcomes_iff (outcomes : List PcapOutcome) :
    DependsOnOutcomes outcomes ↔ ∀ outcome ∈ outcomes, Determined outcome := by
  constructor
  · rintro ⟨rule, hnone, hrule⟩ outcome houtcome
    refine determined_of_decision (fun u => ?_) (fun h => (congrArg rule h).trans hnone)
    -- a capture with a handler, and the same indeterminate members in each pass
    have hrun := hrule Unit (create.registerHandler ()) (List.replicate outcomes.length u)
      List.length_replicate
    have hhandlers : (create.registerHandler () : PacketCapture Unit).handlers = [()] := rfl
    have hdecisions := decision_of_captureThreadFunc hhandlers (by simp) hrun
    obtain ⟨i, hi, rfl⟩ := List.getElem_of_mem houtcome
    have hpass := (List.forall₂_iff_get.mp hdecisions).2 i (by simpa using hi) (by simpa using hi)
    simpa using hpass
  · intro hdetermined
    refine ⟨processed, rfl, fun η c us hlength => captureThreadFunc_eq c ?_⟩
    apply List.forall₂_iff_get.mpr
    refine ⟨by simp [hlength], fun i hzip hmap => ?_⟩
    have hi : i < outcomes.length := by simpa using hmap
    simpa using decision_of_determined (hdetermined outcomes[i] (List.getElem_mem hi)) us[i]

/-- A timeout is processed as an empty packet where the size happens not to be zero. -/
theorem not_dependsOnOutcomes_timeout : ¬ DependsOnOutcomes [none] := by
  rintro ⟨rule, hnone, hrule⟩
  have hrun := hrule Unit (create.registerHandler ()) [⟨1, 0, 0, 0, 0⟩] rfl
  rw [List.map_singleton, hnone] at hrun
  have hcalls := congrArg (List.map Prod.fst) (Except.ok.inj hrun)
  exact absurd (List.cons.inj hcalls).1 (List.cons_ne_nil _ _)

end NetSentry.PacketCapture
