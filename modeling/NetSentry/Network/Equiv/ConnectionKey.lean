import Mathlib.Data.Sym.Sym2.Order
import NetSentry.Lib.ByteOrder
import NetSentry.Network.PacketAnalyzer

/-!
# Connection keys are conversations

A conversation is a protocol and an unordered pair of endpoints.  The key of a packet is the
conversation that the packet belongs to, with its endpoints in order.

* `ends_createConnectionKey`: the endpoints of a key are those of the packet, sorted.
* `createConnectionKey_eq_iff`: two packets have one key exactly when they have one conversation.
-/

namespace NetSentry

/-- An endpoint: the text of an address and a port, in the lexicographic order. -/
abbrev Endpoint := Bytes ×ₗ UInt16

/-- The endpoint a packet comes from. -/
def PacketInfo.source (packet : PacketInfo) : Endpoint := toLex (packet.sourceIp, packet.sourcePort)

/-- The endpoint a packet goes to. -/
def PacketInfo.dest (packet : PacketInfo) : Endpoint := toLex (packet.destIp, packet.destPort)

def ConnectionKey.source (key : ConnectionKey) : Endpoint := toLex (key.sourceIp, key.sourcePort)

def ConnectionKey.dest (key : ConnectionKey) : Endpoint := toLex (key.destIp, key.destPort)

/-- The conversation a packet belongs to: its protocol and its two endpoints, whichever way. -/
def PacketInfo.conversation (packet : PacketInfo) : UInt8 × Sym2 Endpoint :=
  (packet.protocol, s(packet.source, packet.dest))

/-- The conversation of a key. -/
def ConnectionKey.conversation (key : ConnectionKey) : UInt8 × Sym2 Endpoint :=
  (key.protocol, s(key.source, key.dest))

theorem ConnectionKey.ext_iff_ends {key key' : ConnectionKey} :
    key = key' ↔ key.protocol = key'.protocol ∧ key.source = key'.source ∧
      key.dest = key'.dest := by
  cases key
  cases key'
  simp only [ConnectionKey.mk.injEq, source, dest, toLex_inj, Prod.mk.injEq]
  tauto

namespace PacketAnalyzer

theorem protocol_createConnectionKey (packet : PacketInfo) (normalize : Bool) :
    (createConnectionKey packet normalize).protocol = packet.protocol := by
  unfold createConnectionKey
  split_ifs <;> rfl

/-- The ends are swapped where the destination comes before the source. -/
theorem swap_iff (packet : PacketInfo) :
    (packet.sourceIp > packet.destIp ∨
        (packet.sourceIp = packet.destIp ∧ packet.sourcePort > packet.destPort))
      ↔ packet.dest < packet.source := by
  rw [PacketInfo.dest, PacketInfo.source, Prod.Lex.toLex_lt_toLex]
  exact or_congr Iff.rfl (and_congr_left' eq_comm)

/-- **The endpoints of a key** are the endpoints of its packet in order. -/
theorem sortEquiv_conversation (packet : PacketInfo) :
    (Sym2.sortEquiv packet.conversation.2).1
      = ((createConnectionKey packet).source, (createConnectionKey packet).dest) := by
  have hends : (Sym2.sortEquiv packet.conversation.2).1
      = (min packet.source packet.dest, max packet.source packet.dest) := rfl
  unfold createConnectionKey
  rw [hends]
  split_ifs with h
  · have hle : packet.dest ≤ packet.source := ((swap_iff packet).mp h.2).le
    rw [min_eq_right hle, max_eq_left hle]
    rfl
  · have hle : packet.source ≤ packet.dest :=
      not_lt.mp fun hlt => h ⟨rfl, (swap_iff packet).mpr hlt⟩
    rw [min_eq_left hle, max_eq_right hle]
    rfl

theorem source_le_dest (packet : PacketInfo) :
    (createConnectionKey packet).source ≤ (createConnectionKey packet).dest := by
  have hsorted := (Sym2.sortEquiv packet.conversation.2).2
  rwa [sortEquiv_conversation] at hsorted

/-- **A key stands for a conversation.** -/
theorem createConnectionKey_eq_iff {p q : PacketInfo} :
    createConnectionKey p = createConnectionKey q ↔ p.conversation = q.conversation := by
  rw [ConnectionKey.ext_iff_ends, protocol_createConnectionKey, protocol_createConnectionKey,
    ← Prod.mk.injEq, ← sortEquiv_conversation, ← sortEquiv_conversation, Subtype.coe_inj,
    Sym2.sortEquiv.apply_eq_iff_eq, PacketInfo.conversation, PacketInfo.conversation,
    Prod.mk.injEq]

/-- The conversation of a packet's key is the conversation of the packet. -/
theorem conversation_createConnectionKey (packet : PacketInfo) :
    (createConnectionKey packet).conversation = packet.conversation := by
  refine Prod.ext (protocol_createConnectionKey packet true) ?_
  have hsorted : Sym2.sortEquiv.symm (Sym2.sortEquiv packet.conversation.2)
      = s((createConnectionKey packet).source, (createConnectionKey packet).dest) := by
    rw [Sym2.sortEquiv_symm_apply, sortEquiv_conversation]
  rw [Equiv.symm_apply_apply] at hsorted
  exact hsorted.symm

/-- The packet has the protocol and the endpoints of a key, with the key's source as its source. -/
def HasEndsOf (packet : PacketInfo) (key : ConnectionKey) : Prop :=
  packet.protocol = key.protocol ∧ packet.source = key.source ∧ packet.dest = key.dest

/-- A packet with the ends of a key belongs to the conversation of the key. -/
theorem conversation_of_hasEndsOf {packet : PacketInfo} {key : ConnectionKey}
    (h : HasEndsOf packet key) : packet.conversation = key.conversation := by
  obtain ⟨hprotocol, hsource, hdest⟩ := h
  rw [PacketInfo.conversation, ConnectionKey.conversation, hprotocol, hsource, hdest]

/-- **Connection keys identify conversations**: two packets have the same key exactly when they have
the same protocol and the same endpoints, as they are or swapped; a key has its endpoints in order;
and a packet with the endpoints of a key has that key. -/
theorem createConnectionKey_identifies (p q : PacketInfo) :
    (createConnectionKey p = createConnectionKey q ↔ p.protocol = q.protocol ∧
      ((p.source = q.source ∧ p.dest = q.dest) ∨ (p.source = q.dest ∧ p.dest = q.source))) ∧
    (createConnectionKey p).source ≤ (createConnectionKey p).dest ∧
    (HasEndsOf q (createConnectionKey p) → createConnectionKey q = createConnectionKey p) := by
  refine ⟨?_, source_le_dest p, fun h => ?_⟩
  · rw [createConnectionKey_eq_iff, PacketInfo.conversation, PacketInfo.conversation,
      Prod.mk.injEq, Sym2.eq_iff]
  · exact createConnectionKey_eq_iff.mpr
      ((conversation_of_hasEndsOf h).trans (conversation_createConnectionKey p))

end PacketAnalyzer

end NetSentry
