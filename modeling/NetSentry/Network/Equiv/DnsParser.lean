import Mathlib.Data.List.GetD
import Mathlib.Data.Nat.Bitwise
import NetSentry.Network.DnsParser

/-!
# What the DNS parser returns

The parser reads the first eight bytes of a packet that has twelve, so it makes no faulty access:
`parse_eq` gives its verdict on every packet.
-/

namespace NetSentry.DnsParser

open Bytes Checked

/-- The data of a DNS packet: its identifier and whether the top bit of its flags is clear. -/
def headerData (data : Bytes) : DnsData where
  type := .dns
  transactionId := if data.length < 12 then 0 else be16 (data.getD 0 0) (data.getD 1 0)
  isQuery := data.length < 12 ∨ data.getD 2 0 < 128

/-- The mask `0x8000` picks the top bit of the first of the two flag bytes. -/
theorem be16_and_0x8000 (hi lo : UInt8) : be16 hi lo &&& 0x8000 = 0 ↔ hi < 128 := by
  have hhi := hi.toNat_lt
  have hlo := lo.toNat_lt
  have hbit : (hi.toNat * 256 + lo.toNat).testBit 15 = decide (128 ≤ hi.toNat) := by
    rw [Nat.testBit_eq_decide_div_mod_eq]
    congr 1
    rw [eq_iff_iff]
    omega
  rw [← UInt16.toNat_inj, UInt16.toNat_and, toNat_be16, UInt16.toNat_zero,
    show (0x8000 : UInt16).toNat = 2 ^ 15 from rfl, Nat.and_two_pow, hbit, UInt8.lt_iff_toNat_lt,
    show (128 : UInt8).toNat = 128 from rfl]
  by_cases h : 128 ≤ hi.toNat
  · simp [h]
  · simp [h, Nat.lt_of_not_le h]

theorem parseDnsPacket_eq (data : Bytes) : parseDnsPacket data = .ok (headerData data) := by
  unfold parseDnsPacket headerData
  by_cases hlen : data.length < 12
  · simp only [hlen, true_or, decide_true]
    rfl
  · have hat : ∀ i, i + 1 < 12 →
        readWord data i = .ok (be16 (data.getD i 0) (data.getD (i + 1) 0)) := by
      intro i hi
      rw [readWord_of_lt (by omega), List.getD_eq_getElem _ _ (by omega),
        List.getD_eq_getElem _ _ (by omega)]
    simp only [hlen, false_or, hat 0 (by omega), hat 2 (by omega), hat 4 (by omega),
      hat 6 (by omega), bind_ok, be16_and_0x8000]
    rfl

/-- **The verdict of the DNS parser.** -/
theorem parse_eq (packet : PacketInfo) :
    parse packet
      = .ok (if isDnsPacket packet then some (.dns (headerData packet.data)) else none) := by
  unfold parse
  rw [parseDnsPacket_eq]
  cases isDnsPacket packet <;> rfl

/-- The first three bytes of two packets say the same to the parser; of a packet without twelve
bytes it reads none and takes them for zero. -/
def SameHeader (data data' : Bytes) : Prop :=
  if data'.length < 12 then data.getD 0 0 = 0 ∧ data.getD 1 0 = 0 ∧ data.getD 2 0 < 128
  else data.getD 0 0 = data'.getD 0 0 ∧ data.getD 1 0 = data'.getD 1 0 ∧
    (data.getD 2 0 < 128 ↔ data'.getD 2 0 < 128)

instance (data data' : Bytes) : Decidable (SameHeader data data') :=
  inferInstanceAs (Decidable (ite _ _ _))

theorem headerData_eq_iff {data data' : Bytes} (h : 12 ≤ data.length) :
    headerData data = headerData data' ↔ SameHeader data data' := by
  have hlen : ¬ data.length < 12 := by omega
  have hzero : be16 (data.getD 0 0) (data.getD 1 0) = 0 ↔ data.getD 0 0 = 0 ∧ data.getD 1 0 = 0 :=
    be16_inj (c := 0) (d := 0)
  unfold headerData SameHeader
  by_cases hlen' : data'.length < 12
  · simp only [DnsData.mk.injEq, hlen, hlen', if_true, if_false, hzero, false_or, true_or,
      decide_true, decide_eq_true_eq, true_and, and_true, and_assoc]
  · simp only [DnsData.mk.injEq, hlen, hlen', if_false, be16_inj, false_or, decide_eq_decide,
      true_and, and_true, and_assoc]

end NetSentry.DnsParser
