import Mathlib.Data.List.GetD
import NetSentry.Network.TlsParser

/-!
# The TLS parser before the extension walk

Everything the parser reads outside the extension walk lies inside the packet, so the parser is
determined by the bytes of the packet: `isTlsPacket_eq` says which packets it accepts and
`parse_eq` what it returns for them, up to the walk that looks for the server name.
-/

namespace NetSentry.TlsParser

open Bytes Checked

/-- The big-endian number at `i`.  A byte that is not there counts as zero. -/
def wordAt (data : Bytes) (i : ℕ) : ℕ := (be16 (data.getD i 0) (data.getD (i + 1) 0)).toNat

variable {data : Bytes}

theorem readWord_eq_wordAt (data : Bytes) (i : ℕ) (h : i + 1 < data.length) :
    ∃ w, readWord data i = .ok w ∧ w.toNat = wordAt data i := by
  refine ⟨_, readWord_of_lt h, ?_⟩
  rw [wordAt, List.getD_eq_getElem _ _ h, List.getD_eq_getElem _ _ (Nat.lt_of_succ_lt h)]

theorem readAt_eq_getD {i : ℕ} (h : i < data.length) : readAt data i = .ok (data.getD i 0) := by
  rw [readAt_of_lt h, List.getD_eq_getElem _ _ h]

/-- The packets the parser takes for TLS records. -/
def Accepts (packet : PacketInfo) : Prop :=
  packet.protocol = IPPROTO_TCP ∧ 5 ≤ packet.data.length ∧
    (20 ≤ packet.data.getD 0 0 ∧ packet.data.getD 0 0 ≤ 23) ∧
    ((0x0300 ≤ wordAt packet.data 1 ∧ wordAt packet.data 1 ≤ 0x0304) ∨
      wordAt packet.data 1 = 0x0100)

instance (packet : PacketInfo) : Decidable (Accepts packet) :=
  inferInstanceAs (Decidable (_ ∧ _ ∧ _ ∧ _))

theorem isTlsPacket_eq (packet : PacketInfo) :
    isTlsPacket packet = .ok (decide (Accepts packet)) := by
  unfold isTlsPacket
  by_cases hprotocol : packet.protocol = IPPROTO_TCP
  · by_cases hlen : packet.data.length < 5
    · have hno : ¬ Accepts packet := fun h => absurd h.2.1 (by omega)
      rw [if_neg (by simpa using hprotocol), if_pos hlen, decide_eq_false hno]
      rfl
    · obtain ⟨version, hversionAt, hversion⟩ :=
        readWord_eq_wordAt packet.data 1 (by omega)
      rw [if_neg (by simpa using hprotocol), if_neg hlen, readAt_eq_getD (by omega), hversionAt]
      refine congrArg Except.ok (Bool.eq_iff_iff.mpr ?_)
      simp only [Bool.and_eq_true, Bool.or_eq_true, decide_eq_true_eq, beq_iff_eq, Accepts,
        ← hversion, UInt16.le_iff_toNat_le, ← UInt16.toNat_inj]
      constructor
      · rintro ⟨htype, hrange⟩
        exact ⟨hprotocol, Nat.not_lt.mp hlen, htype, hrange⟩
      · rintro ⟨-, -, htype, hrange⟩
        exact ⟨htype, hrange⟩
  · have hno : ¬ Accepts packet := fun h => hprotocol h.1
    rw [if_pos hprotocol, decide_eq_false hno]
    rfl

/-- The record is a client hello that is long enough to have a session id. -/
def IsClientHello (data : Bytes) : Prop :=
  data.getD 0 0 = 22 ∧ data.getD 5 0 = 1 ∧ 43 < data.length

instance (data : Bytes) : Decidable (IsClientHello data) :=
  inferInstanceAs (Decidable (_ ∧ _ ∧ _))

/-- The members of the `TlsData` of an accepted record apart from the server name. -/
def recordData (data : Bytes) : TlsData where
  type := .tls
  contentType := data.getD 0 0
  version := be16 (data.getD 1 0) (data.getD 2 0)
  isHandshake := data.getD 0 0 = 22
  isClientHello := data.getD 0 0 = 22 ∧ 6 ≤ data.length ∧ data.getD 5 0 = 1
  isServerHello := data.getD 0 0 = 22 ∧ 6 ≤ data.length ∧ data.getD 5 0 = 2

theorem parseTlsPacket_eq (h : 5 ≤ data.length) :
    parseTlsPacket data
      = if IsClientHello data then do
          let serverName ← clientHelloServerName data
          pure { recordData data with serverName := serverName }
        else pure (recordData data) := by
  have hversion : readWord data 1 = .ok (be16 (data.getD 1 0) (data.getD 2 0)) := by
    rw [readWord_of_lt (by omega), List.getD_eq_getElem _ _ (by omega),
      List.getD_eq_getElem _ _ (by omega)]
  unfold parseTlsPacket recordData
  rw [if_neg (by omega), readAt_eq_getD (show 0 < data.length by omega), hversion]
  simp only [bind_ok, beq_iff_eq]
  by_cases hhandshake : data.getD 0 0 = 22
  · by_cases h6 : 6 ≤ data.length
    · rw [if_pos ⟨hhandshake, h6⟩, readAt_eq_getD (show 5 < data.length by omega)]
      have hhello : IsClientHello data ↔ data.getD 5 0 = 1 ∧ 43 < data.length :=
        ⟨fun h => h.2, fun h => ⟨hhandshake, h⟩⟩
      simp only [bind_ok, hhello, hhandshake, h6, true_and, decide_true,
        beq_self_eq_true, Bool.beq_eq_decide_eq]
    · -- too short for a handshake type
      have hno : ¬ IsClientHello data := by
        rintro ⟨-, -, hlong⟩
        omega
      rw [if_neg (fun h => h6 h.2), if_neg hno]
      simp only [hhandshake, h6, false_and, and_false, decide_false, decide_true, beq_self_eq_true]
  · have hbeq : (data.getD 0 0 == 22) = false := by simpa using hhandshake
    have hno : ¬ IsClientHello data := fun h => hhandshake h.1
    rw [if_neg (fun h => hhandshake h.1), if_neg hno]
    simp only [hhandshake, hbeq, false_and, decide_false]

/-- **What the parser returns**, up to the extension walk. -/
theorem parse_eq (packet : PacketInfo) :
    parse packet
      = if Accepts packet then
          if IsClientHello packet.data then do
            let serverName ← clientHelloServerName packet.data
            pure (some (.tls { recordData packet.data with serverName := serverName }))
          else pure (some (.tls (recordData packet.data)))
        else pure none := by
  rw [parse, isTlsPacket_eq]
  simp only [bind_ok]
  by_cases haccepts : Accepts packet
  · rw [if_pos (by simpa using haccepts), if_pos haccepts, parseTlsPacket_eq haccepts.2.1]
    split_ifs
    · simp only [bind_assoc, pure_bind]
    · rfl
  · rw [if_neg (by simpa using haccepts), if_neg haccepts]

/-! ### Records that are told apart by their first six bytes -/

/-- The data begins like a client hello. -/
def BeginsClientHello (data : Bytes) : Prop := data.getD 0 0 = 22 ∧ data.getD 5 0 = 1

/-- Neither record begins like a client hello, and the two have the same content type, version and
kind of handshake. -/
def SameRecord (data data' : Bytes) : Prop :=
  (data.getD 0 0 = data'.getD 0 0 ∧ data.getD 1 0 = data'.getD 1 0 ∧
    data.getD 2 0 = data'.getD 2 0) ∧
  ¬ BeginsClientHello data ∧ ¬ BeginsClientHello data' ∧
  (data.getD 0 0 = 22 → (data.getD 5 0 = 2 ↔ data'.getD 5 0 = 2))

theorem six_le_length_of_getD {b : UInt8} (h : data.getD 5 0 = b) (hb : b ≠ 0) :
    6 ≤ data.length := by
  by_contra hlen
  rw [List.getD_eq_default _ _ (by omega)] at h
  exact hb h.symm

/-- The handshake type is read from a record that has one. -/
theorem recordData_eq (data : Bytes) : recordData data =
    { type := .tls
      contentType := data.getD 0 0
      version := be16 (data.getD 1 0) (data.getD 2 0)
      isHandshake := data.getD 0 0 = 22
      isClientHello := data.getD 0 0 = 22 ∧ data.getD 5 0 = 1
      isServerHello := data.getD 0 0 = 22 ∧ data.getD 5 0 = 2 } := by
  have hread : ∀ b : UInt8, b ≠ 0 → (6 ≤ data.length ∧ data.getD 5 0 = b ↔ data.getD 5 0 = b) :=
    fun b hb => ⟨And.right, fun h => ⟨six_le_length_of_getD h hb, h⟩⟩
  unfold recordData
  simp only [hread 1 (by decide), hread 2 (by decide)]

theorem recordData_eq_iff {data data' : Bytes}
    (h : ¬ (BeginsClientHello data ∧ BeginsClientHello data')) :
    recordData data = recordData data' ↔ SameRecord data data' := by
  rw [recordData_eq, recordData_eq]
  unfold SameRecord
  unfold BeginsClientHello at h ⊢
  simp only [TlsData.mk.injEq, be16_inj, decide_eq_decide, true_and, and_true]
  constructor
  · -- neither begins like a client hello, since both would
    rintro ⟨h0, ⟨h1, h2⟩, -, hclient, hserver⟩
    have hclient' : ¬ (data.getD 0 0 = 22 ∧ data.getD 5 0 = 1) := fun hc => h ⟨hc, hclient.mp hc⟩
    exact ⟨⟨h0, h1, h2⟩, hclient', fun hc => hclient' (hclient.mpr hc), fun h22 =>
      ⟨fun h5 => (hserver.mp ⟨h22, h5⟩).2, fun h5 => (hserver.mpr ⟨h0 ▸ h22, h5⟩).2⟩⟩
  · rintro ⟨⟨h0, h1, h2⟩, hclient, hclient', hserver⟩
    refine ⟨h0, ⟨h1, h2⟩, by rw [h0], iff_of_false hclient hclient', ?_⟩
    exact ⟨fun hs => ⟨h0 ▸ hs.1, (hserver hs.1).mp hs.2⟩,
      fun hs => ⟨h0 ▸ hs.1, (hserver (h0 ▸ hs.1)).mpr hs.2⟩⟩

/-- An accepted record that does not begin like a client hello. -/
theorem parse_of_not_beginsClientHello {packet : PacketInfo} (haccepts : Accepts packet)
    (h : ¬ BeginsClientHello packet.data) :
    parse packet = .ok (some (.tls (recordData packet.data))) := by
  rw [parse_eq, if_pos haccepts, if_neg fun hhello => h ⟨hhello.1, hhello.2.1⟩]
  rfl

/-- Whatever comes of the extension walk, the verdict on an accepted record names the record. -/
theorem recordData_of_parse {packet : PacketInfo} (haccepts : Accepts packet)
    {verdict : Option ProtocolData} (h : parse packet = .ok verdict) :
    ∃ serverName,
      verdict = some (.tls { recordData packet.data with serverName := serverName }) := by
  rw [parse_eq, if_pos haccepts] at h
  split_ifs at h with hhello
  · cases hname : clientHelloServerName packet.data with
    | ok serverName =>
      rw [hname] at h
      exact ⟨serverName, (Except.ok.inj h).symm⟩
    | error fault =>
      rw [hname] at h
      cases h
  · exact ⟨none, (Except.ok.inj h).symm⟩

end NetSentry.TlsParser
