import NetSentry.Network.Equiv.CaptureLoop
import NetSentry.Network.Equiv.ConnectionKey
import NetSentry.Network.Equiv.PacketAnalyzer

/-!
# Flows that no frame carries

`parsePacket` takes every frame for IPv4: it looks at neither the EtherType nor the version nor the
fragment offset, and accepts a header shorter than 20 bytes.

* `noInvention_iff`: the frames of which it assigns only what they carry.
* `noInventedFlows`: in a run of such frames every connection has the addresses and the ports of
  one of them.
-/

namespace NetSentry.PacketAnalyzer

open Bytes Checked PacketCapture

/-! ### Frames -/

/-- The frame carries IPv4: its EtherType says so, and the version and the length of the header are
those of IPv4. -/
def IsIpv4 (bytes : Bytes) : Prop :=
  be16 (bytes.getD 12 0) (bytes.getD 13 0) = 0x0800 ∧ bytes.getD 14 0 >>> 4 = 4 ∧
    5 ≤ bytes.getD 14 0 &&& 0x0F

instance (bytes : Bytes) : Decidable (IsIpv4 bytes) := inferInstanceAs (Decidable (_ ∧ _ ∧ _))

/-- The fragment offset of the IPv4 header. -/
def fragmentOffset (bytes : Bytes) : UInt16 :=
  be16 (bytes.getD 20 0) (bytes.getD 21 0) &&& 0x1FFF

/-- Protocol and addresses are assigned only of a frame with IPv4, and ports other than zero only
where a transport header follows.  What is not assigned is what it was, whatever that is. -/
def NoInvention (bytes : Bytes) : Prop :=
  ∀ packet : PacketInfo, ∃ result, parsePacket packet bytes bytes.length = .ok result ∧
    (IsIpv4 bytes ∨ (result.protocol = packet.protocol ∧ result.sourceIp = packet.sourceIp ∧
      result.destIp = packet.destIp)) ∧
    ((IsIpv4 bytes ∧ fragmentOffset bytes = 0) ∨
      ((result.sourcePort = packet.sourcePort ∨ result.sourcePort = 0) ∧
        (result.destPort = packet.destPort ∨ result.destPort = 0)))

/-- The four bytes behind the IPv4 header are zero. -/
def ZeroPorts (bytes : Bytes) : Prop :=
  ∀ i < 4, bytes.getD (14 + ipHeaderLen bytes + i) 0 = 0

instance (bytes : Bytes) : Decidable (ZeroPorts bytes) :=
  inferInstanceAs (Decidable (∀ i < 4, _))

/-- The frame is decoded inside its bounds, and if it is decoded at all, it carries IPv4 and is not
a later fragment of which ports are read that are not zero. -/
def Genuine (bytes : Bytes) : Prop :=
  DecodesInBounds bytes ∧ (IsParsed bytes → IsIpv4 bytes ∧
    (fragmentOffset bytes = 0 ∨ ¬ HasPorts bytes ∨ ZeroPorts bytes))

instance (bytes : Bytes) : Decidable (Genuine bytes) :=
  inferInstanceAs (Decidable (_ ∧ (_ → _ ∧ (_ ∨ _ ∨ _))))

section

variable {bytes : Bytes}

/-- Both ports of a frame are zero exactly where none are read or their bytes are zero. -/
theorem portAt_eq_zero_iff :
    (portAt bytes (14 + ipHeaderLen bytes) = 0 ∧ portAt bytes (14 + ipHeaderLen bytes + 2) = 0)
      ↔ ¬ HasPorts bytes ∨ ZeroPorts bytes := by
  have hzero : ∀ hi lo : UInt8, be16 hi lo = 0 ↔ hi = 0 ∧ lo = 0 := fun hi lo =>
    be16_inj (c := 0) (d := 0)
  by_cases hports : HasPorts bytes
  · unfold portAt ZeroPorts
    rw [if_pos hports, if_pos hports, hzero, hzero, or_iff_right (not_not_intro hports)]
    constructor
    · rintro ⟨⟨h0, h1⟩, h2, h3⟩ i hi
      interval_cases i
      · exact h0
      · exact h1
      · exact h2
      · exact h3
    · intro h
      exact ⟨⟨h 0 (by omega), h 1 (by omega)⟩, h 2 (by omega), h 3 (by omega)⟩
  · simp [portAt, hports]

theorem noInvention_of_genuine (h : Genuine bytes) : NoInvention bytes := by
  obtain ⟨hbounds, hgenuine⟩ := h
  intro packet
  by_cases hparsed : IsParsed bytes
  · obtain ⟨hipv4, hports⟩ := hgenuine hparsed
    refine ⟨_, parsePacket_of_isParsed hparsed packet, .inl hipv4, ?_⟩
    rcases hports with hfirst | hzero
    · exact .inl ⟨hipv4, hfirst⟩
    · obtain ⟨hsource, hdest⟩ := portAt_eq_zero_iff.mpr hzero
      exact .inr ⟨.inr hsource, .inr hdest⟩
  · exact ⟨_, parsePacket_of_not_isParsed hbounds hparsed packet, .inr ⟨rfl, rfl, rfl⟩,
      .inr ⟨.inl rfl, .inl rfl⟩⟩

/-- A packet that holds something else than what the frame assigns tells what is assigned. -/
theorem genuine_of_noInvention (h : NoInvention bytes) : Genuine bytes := by
  refine ⟨?_, fun hparsed => ?_⟩
  · obtain ⟨result, hresult, -⟩ := h (PacketInfo.defaultInit ⟨0, 0, 0, 0, 0⟩)
    exact (parsePacket_defined_iff _ _).mp ⟨result, hresult⟩
  · set sourcePort := portAt bytes (14 + ipHeaderLen bytes) with hsourcePort
    set destPort := portAt bytes (14 + ipHeaderLen bytes + 2) with hdestPort
    obtain ⟨result, hresult, haddresses, hports⟩ := h (PacketInfo.defaultInit
      ⟨0, sourcePort + 1, destPort + 1, bytes.getD 23 0 + 1, 0⟩)
    rw [parsePacket_of_isParsed hparsed] at hresult
    obtain rfl := Except.ok.inj hresult
    have hother : ∀ port : UInt16, port ≠ port + 1 := by
      intro port hport
      simp at hport
    have hipv4 : IsIpv4 bytes := by
      refine haddresses.resolve_right fun hkept => ?_
      have hprotocol : bytes.getD 23 0 = bytes.getD 23 0 + 1 := hkept.1
      simp at hprotocol
    refine ⟨hipv4, ?_⟩
    rcases hports with ⟨-, hfirst⟩ | ⟨hsource, hdest⟩
    · exact .inl hfirst
    · exact .inr (portAt_eq_zero_iff.mp
        ⟨hsource.resolve_left (hother sourcePort), hdest.resolve_left (hother destPort)⟩)

/-- **The frames of which only what they carry is assigned.** -/
theorem noInvention_iff : NoInvention bytes ↔ Genuine bytes :=
  ⟨genuine_of_noInvention, noInvention_of_genuine⟩

end

/-! ### Runs -/

/-- What happens to the analyzer: a frame is captured and its packet processed, or a reset. -/
inductive Event
  | frame (u : Indeterminate) (pcap : PcapPacket)
  | reset

/-- The analyzer after an event.  A packet of size zero is not handed on. -/
def handle (a : PacketAnalyzer) : Event → Checked PacketAnalyzer
  | .frame u pcap => do
    let packet ← capturePacket u (some pcap)
    pure (if 0 < packet.size then a.processPacket packet else a)
  | .reset => pure a.reset

/-- A frame that carries the ends of a key: IPv4 with the addresses, and with the ports unless they
are zero. -/
def Carries (bytes : Bytes) (key : ConnectionKey) : Prop :=
  IsIpv4 bytes ∧ ∃ sourcePort destPort : UInt16,
    ((sourcePort = 0 ∧ destPort = 0) ∨ (fragmentOffset bytes = 0 ∧
      sourcePort = be16 (bytes.getD (14 + ipHeaderLen bytes) 0)
        (bytes.getD (14 + ipHeaderLen bytes + 1) 0) ∧
      destPort = be16 (bytes.getD (14 + ipHeaderLen bytes + 2) 0)
        (bytes.getD (14 + ipHeaderLen bytes + 3) 0))) ∧
    key.conversation = (bytes.getD 23 0,
      s(toLex (dottedDecimal ((bytes.drop 26).take 4), sourcePort),
        toLex (dottedDecimal ((bytes.drop 30).take 4), destPort)))

/-- The connection has neither addresses nor ports. -/
def HasNoEnds (key : ConnectionKey) : Prop :=
  key.source = toLex ([], 0) ∧ key.dest = toLex ([], 0)

/-- Nothing of the connection is made up: a frame of the run carries it, or it has no ends. -/
def Backed (events : List Event) (key : ConnectionKey) : Prop :=
  (∃ u pcap, Event.frame u pcap ∈ events ∧ Carries pcap.bytes key) ∨ HasNoEnds key

/-- The frame is genuine, and where it is not decoded but handed on, the ports of its packet happen
to be zero. -/
def Event.Meets : Event → Prop
  | .frame u pcap => Genuine pcap.bytes ∧
      (pcap.len = 0 ∨ IsParsed pcap.bytes ∨ (u.sourcePort = 0 ∧ u.destPort = 0))
  | .reset => True

instance (event : Event) : Decidable event.Meets :=
  match event with
  | .frame _ _ => inferInstanceAs (Decidable (_ ∧ (_ ∨ _ ∨ _ ∧ _)))
  | .reset => isTrue trivial

theorem conversation_decoded (bytes : Bytes) (packet : PacketInfo) :
    (decoded bytes packet).conversation = (bytes.getD 23 0,
      s(toLex (dottedDecimal ((bytes.drop 26).take 4), portAt bytes (14 + ipHeaderLen bytes)),
        toLex (dottedDecimal ((bytes.drop 30).take 4),
          portAt bytes (14 + ipHeaderLen bytes + 2)))) := rfl

/-- A genuine frame carries the key of the packet that is made of it. -/
theorem carries_of_genuine {bytes : Bytes} (hparsed : IsParsed bytes) (h : Genuine bytes)
    (packet : PacketInfo) : Carries bytes (createConnectionKey (decoded bytes packet)) := by
  obtain ⟨hipv4, hports⟩ := h.2 hparsed
  refine ⟨hipv4, _, _, ?_, (conversation_createConnectionKey _).trans
    (conversation_decoded bytes packet)⟩
  by_cases hzero : ¬ HasPorts bytes ∨ ZeroPorts bytes
  · exact .inl (portAt_eq_zero_iff.mpr hzero)
  · have hread : HasPorts bytes := not_not.mp fun hno => hzero (.inl hno)
    exact .inr ⟨hports.resolve_right hzero, if_pos hread, if_pos hread⟩

theorem hasNoEnds_of_undecoded {u : Indeterminate} (h : u.sourcePort = 0 ∧ u.destPort = 0)
    (pcap : PcapPacket) : HasNoEnds (createConnectionKey (undecoded u pcap)) := by
  have hsource : (undecoded u pcap).source = toLex ([], 0) := congrArg (toLex ([], ·)) h.1
  have hdest : (undecoded u pcap).dest = toLex ([], 0) := congrArg (toLex ([], ·)) h.2
  have hsorted := sortEquiv_conversation (undecoded u pcap)
  have hself : ∀ e : Endpoint, (Sym2.sortEquiv s(e, e)).1 = (e, e) :=
    fun e => Prod.ext (min_self e) (max_self e)
  rw [PacketInfo.conversation, hsource, hdest, hself] at hsorted
  exact ⟨(Prod.mk.inj hsorted).1.symm, (Prod.mk.inj hsorted).2.symm⟩

theorem mem_connections_processPacket {a : PacketAnalyzer} {packet : PacketInfo}
    {key : ConnectionKey} (h : key ∈ (a.processPacket packet).connections) :
    key = createConnectionKey packet ∨ key ∈ a.connections :=
  Finmap.mem_insert.mp h

/-- **One event** that meets the condition adds no connection with made-up ends. -/
theorem handle_of_meets {event : Event} (h : event.Meets) (a : PacketAnalyzer) :
    ∃ a', a.handle event = .ok a' ∧
      ∀ key ∈ a'.connections, key ∈ a.connections ∨ Backed [event] key := by
  cases event with
  | reset => exact ⟨_, rfl, fun key hkey => absurd hkey Finmap.notMem_empty⟩
  | frame u pcap =>
    obtain ⟨hgenuine, hcases⟩ := h
    -- a packet that is handed on adds its own key at most
    have hadd : ∀ packet, capturePacket u (some pcap) = .ok packet →
        (0 < packet.size → Backed [.frame u pcap] (createConnectionKey packet)) →
        ∃ a', a.handle (.frame u pcap) = .ok a' ∧
          ∀ key ∈ a'.connections, key ∈ a.connections ∨ Backed [.frame u pcap] key := by
      intro packet hpacket hbacked
      refine ⟨if 0 < packet.size then a.processPacket packet else a, ?_, fun key hkey => ?_⟩
      · rw [handle, hpacket]
        rfl
      · split_ifs at hkey with hsize
        · rcases mem_connections_processPacket hkey with rfl | hold
          · exact .inr (hbacked hsize)
          · exact .inl hold
        · exact .inl hkey
    by_cases hparsed : IsParsed pcap.bytes
    · refine hadd (decoded pcap.bytes (undecoded u pcap)) ?_ fun _ => ?_
      · rw [capturePacket_some, parsePacket_of_isParsed hparsed]
      · exact .inl ⟨u, pcap, by simp, carries_of_genuine hparsed hgenuine _⟩
    · refine hadd (undecoded u pcap) ?_ fun hsize => ?_
      · rw [capturePacket_some, parsePacket_of_not_isParsed hgenuine.1 hparsed]
      · rcases hcases with hlen | hdecoded | hports
        · have hzero : (undecoded u pcap).size = 0 := congrArg UInt32.toUInt64 hlen
          exact absurd hsize (by rw [hzero]; exact lt_irrefl 0)
        · exact absurd hdecoded hparsed
        · exact .inr (hasNoEnds_of_undecoded hports pcap)

theorem Backed.mono {events events' : List Event} {key : ConnectionKey} (h : Backed events key)
    (hsub : events ⊆ events') : Backed events' key :=
  h.imp_left fun ⟨u, pcap, hmem, hcarries⟩ => ⟨u, pcap, hsub hmem, hcarries⟩

/-- **A run** of such events. -/
theorem foldlM_handle_of_meets {events : List Event} (h : ∀ event ∈ events, event.Meets)
    (a : PacketAnalyzer) : ∃ a', events.foldlM handle a = .ok a' ∧
      ∀ key ∈ a'.connections, key ∈ a.connections ∨ Backed events key := by
  induction events generalizing a with
  | nil => exact ⟨a, rfl, fun key hkey => .inl hkey⟩
  | cons event events ih =>
    obtain ⟨b, hb, hfirst⟩ := handle_of_meets (h event (by simp)) a
    obtain ⟨a', ha', hrest⟩ := ih (fun e he => h e (List.mem_cons_of_mem _ he)) b
    refine ⟨a', by rw [List.foldlM_cons, hb]; exact ha', fun key hkey => ?_⟩
    rcases hrest key hkey with hkey | hbacked
    · exact (hfirst key hkey).imp_right fun hbacked => hbacked.mono (by simp)
    · exact .inr (hbacked.mono (by simp))

/-- **No invented flows**: a frame is assigned only what it carries exactly when it is genuine, and
in a run whose events all meet the condition, every connection is carried by a frame of the run or
has no ends. -/
theorem noInventedFlows (parsers : List ProtocolParser) (events : List Event)
    (h : ∀ event ∈ events, event.Meets) :
    (∀ bytes, NoInvention bytes ↔ Genuine bytes) ∧
    ∃ a, events.foldlM handle (create parsers) = .ok a ∧
      ∀ key ∈ a.connections, Backed events key := by
  obtain ⟨a, ha, hkeys⟩ := foldlM_handle_of_meets h (create parsers)
  exact ⟨fun _ => noInvention_iff, a, ha, fun key hkey =>
    (hkeys key hkey).resolve_left Finmap.notMem_empty⟩

/-- A request for the address of 10.0.0.2. -/
def arpRequest : Bytes :=
  [255, 255, 255, 255, 255, 255, 2, 0, 0, 0, 0, 1, 8, 6, 0, 1, 8, 0, 6, 4, 0, 1,
    2, 0, 0, 0, 0, 1, 10, 0, 0, 1, 0, 0, 0, 0, 0, 0, 10, 0, 0, 2]

/-- An answer from port 53 of 10.0.0.1 to port 40000 of 10.0.0.2, without data. -/
def udpAnswer : Bytes :=
  [2, 0, 0, 0, 0, 2, 2, 0, 0, 0, 0, 1, 8, 0, 0x45, 0, 0, 28, 0, 1, 0, 0, 64, 17, 0, 0,
    10, 0, 0, 1, 10, 0, 0, 2, 0, 53, 0x9c, 0x40, 0, 8, 0, 0]

theorem noInventedFlows_udpAnswer :
    (∀ bytes, NoInvention bytes ↔ Genuine bytes) ∧
    ∃ a, [Event.reset, .frame ⟨0, 1, 2, 3, 4⟩ ⟨0, 0, 42, udpAnswer⟩].foldlM handle (create [])
        = .ok a ∧ ∀ key ∈ a.connections,
          Backed [.reset, .frame ⟨0, 1, 2, 3, 4⟩ ⟨0, 0, 42, udpAnswer⟩] key :=
  noInventedFlows _ _ (by decide)

/-- The request is taken for an IPv4 packet, although its EtherType is that of ARP. -/
theorem arpRequest_invented : ¬ ∀ bytes, NoInvention bytes := by
  intro h
  exact absurd (genuine_of_noInvention (h arpRequest)) (by decide)

end NetSentry.PacketAnalyzer
