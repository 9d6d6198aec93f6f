import NetSentry.Network.Equiv.TlsBounds
import NetSentry.Network.Equiv.TlsDecode

/-!
# Bytes behind a client hello

The parser bounds what it reads by the size of the packet and not by the lengths of the record.  A
record with an extension block is read as if nothing followed it (`clientHelloServerName_block`);
behind a record without one, what follows is taken for the extension block
(`clientHelloServerName_noBlock`).

`parse_append_iff`: what is read from the record does not depend on what follows exactly where there
is nothing that the parser could take for an extension block with a host name in it.
-/

namespace NetSentry.TlsParser

open Bytes Checked

/-! ### The walk over a block inside the packet -/

/-- A walk that stays inside the packet does not see what follows. -/
theorem extensionLoop_approx (data t : Bytes) (endOffset q : ℕ) :
    Approx (extensionLoop data endOffset q) (extensionLoop (data ++ t) endOffset q) := by
  induction hm : endOffset - q using Nat.strong_induction_on generalizing q with
  | _ m ih =>
    rw [extensionLoop, extensionLoop]
    by_cases hq : q + 4 ≤ endOffset
    · rw [if_pos hq, if_pos hq]
      apply (approx_readWord data t q).bind
      intro extensionType
      apply (approx_readWord data t (q + 2)).bind
      intro extensionLength
      split_ifs with hlist
      · apply (approx_readWord data t (q + 4)).bind
        intro listLength
        split_ifs with hname
        · apply (approx_readAt data t (q + 4 + 2)).bind
          intro nameType
          apply (approx_readWord data t (q + 4 + 2 + 1)).bind
          intro nameLength
          split_ifs
          · exact (approx_rangeAt data t _ _).bind fun _ => .refl _
          · exact ih _ (by omega) _ rfl
        · exact ih _ (by omega) _ rfl
      · exact ih _ (by omega) _ rfl
    · rw [if_neg hq, if_neg hq]
      exact .refl _

/-! ### The walk over what follows -/

theorem getD_append_add (pre t : Bytes) (i : ℕ) :
    (pre ++ t).getD (pre.length + i) 0 = t.getD i 0 := by
  rw [List.getD_append_right _ _ _ _ (Nat.le_add_right _ _), Nat.add_sub_cancel_left]

theorem wordAt_append_add (pre t : Bytes) (i : ℕ) :
    wordAt (pre ++ t) (pre.length + i) = wordAt t i := by
  rw [wordAt, wordAt, Nat.add_assoc, getD_append_add, getD_append_add]

section Shift

variable (pre t : Bytes) (endOffset q : ℕ)

theorem entersList_append :
    EntersList (pre ++ t) (pre.length + endOffset) (pre.length + q) ↔ EntersList t endOffset q := by
  simp only [EntersList, Nat.add_assoc, wordAt_append_add, Nat.add_le_add_iff_left]

theorem entersName_append :
    EntersName (pre ++ t) (pre.length + endOffset) (pre.length + q) ↔ EntersName t endOffset q := by
  simp only [EntersName, entersList_append, Nat.add_assoc, wordAt_append_add,
    Nat.add_le_add_iff_left]

theorem findsName_append :
    FindsName (pre ++ t) (pre.length + endOffset) (pre.length + q) ↔ FindsName t endOffset q := by
  simp only [FindsName, entersName_append, Nat.add_assoc, wordAt_append_add, getD_append_add,
    Nat.add_le_add_iff_left]

theorem next_append :
    next (pre ++ t) (pre.length + endOffset) (pre.length + q)
      = pre.length + next t endOffset q := by
  simp only [next, entersName_append, entersList_append, Nat.add_assoc, wordAt_append_add]
  split_ifs <;> omega

theorem needed_append :
    needed (pre ++ t) (pre.length + endOffset) (pre.length + q)
      = pre.length + needed t endOffset q := by
  simp only [needed, findsName_append, entersName_append, entersList_append, Nat.add_assoc,
    wordAt_append_add]
  split_ifs <;> rfl

end Shift

/-- The walk over a block comes to its end: it hops over captured extensions, none of which it takes
a host name from. -/
def NamesNothing (t : Bytes) (endOffset q : ℕ) : Prop :=
  ∃ q', Relation.ReflTransGen (Hop t endOffset) q q' ∧ endOffset < q' + 4

theorem namesNothing_next {t : Bytes} {endOffset q : ℕ} (hq : q + 4 ≤ endOffset) :
    NamesNothing t endOffset q ↔ needed t endOffset q ≤ t.length ∧ ¬ FindsName t endOffset q ∧
      NamesNothing t endOffset (next t endOffset q) := by
  constructor
  · rintro ⟨q', hwalk, hend⟩
    rcases hwalk.cases_head with rfl | ⟨_, ⟨-, hneeded, hfind, rfl⟩, hrest⟩
    · omega
    · exact ⟨hneeded, hfind, q', hrest, hend⟩
  · rintro ⟨hneeded, hfind, q', hwalk, hend⟩
    exact ⟨q', .head ⟨hq, hneeded, hfind, rfl⟩ hwalk, hend⟩

/-- **The walk over what follows the record** ends without a name exactly where it names nothing. -/
theorem extensionLoop_append_eq_none (pre t : Bytes) (endOffset q : ℕ) :
    extensionLoop (pre ++ t) (pre.length + endOffset) (pre.length + q) = .ok none
      ↔ NamesNothing t endOffset q := by
  induction hm : endOffset - q using Nat.strong_induction_on generalizing q with
  | _ m ih =>
    by_cases hq : q + 4 ≤ endOffset
    · have hq' : pre.length + q + 4 ≤ pre.length + endOffset := by omega
      have hneededIff : needed (pre ++ t) (pre.length + endOffset) (pre.length + q)
          ≤ (pre ++ t).length ↔ needed t endOffset q ≤ t.length := by
        rw [needed_append, List.length_append, Nat.add_le_add_iff_left]
      rw [namesNothing_next hq]
      by_cases hneeded : needed t endOffset q ≤ t.length
      · have hlt := lt_next t endOffset q
        rw [extensionLoop_step hq' (hneededIff.mpr hneeded)]
        by_cases hfind : FindsName t endOffset q
        · rw [if_pos ((findsName_append pre t endOffset q).mpr hfind)]
          exact ⟨nofun, fun h => absurd hfind h.2.1⟩
        · rw [if_neg (mt (findsName_append pre t endOffset q).mp hfind), next_append,
            ih _ (by omega) _ rfl]
          exact ⟨fun h => ⟨hneeded, hfind, h⟩, fun h => h.2.2⟩
      · -- the pass leaves the packet
        constructor
        · intro h
          refine absurd ⟨_, h⟩ (not_defined_of_needed hq' ?_)
          exact Nat.lt_of_not_le (mt hneededIff.mp hneeded)
        · exact fun h => absurd h.1 hneeded
    · rw [extensionLoop_of_lt (by omega)]
      exact ⟨fun _ => ⟨q, .refl, Nat.lt_of_not_le hq⟩, fun _ => rfl⟩

/-! ### The record and what follows -/

variable (record : HelloRecord) (t : Bytes)

theorem encode_append :
    record.encode ++ t = record.head ++ (frame8 record.sessionId.1 ++
      (frame16 record.cipherSuites.1 ++ (frame8 record.compressionMethods.1
        ++ (record.encodeBlock ++ t)))) := by
  rw [record.encode_eq]
  simp only [List.append_assoc]

theorem length_encode_record :
    record.encode.length = 44 + record.sessionId.1.length + (2 + record.cipherSuites.1.length)
      + (1 + record.compressionMethods.1.length) + record.encodeBlock.length := by
  rw [record.encode_eq]
  simp only [List.length_append, length_frame8, length_frame16, record.length_head]
  omega

/-- **Without an extension block** what follows is taken for one. -/
theorem clientHelloServerName_noBlock (hblock : record.block = none) :
    clientHelloServerName (record.encode ++ t)
      = if 2 < t.length
        then extractServerName (record.encode ++ t) (record.encode.length + 2) (wordAt t 0)
        else .ok none := by
  have hempty : record.encodeBlock = [] := by rw [HelloRecord.encodeBlock, hblock, Option.elim]
  have hlength := length_encode_record record
  rw [hempty, List.length_nil, Nat.add_zero] at hlength
  rw [clientHelloServerName_fields _ _ record.length_head record.sessionId record.cipherSuites
    record.compressionMethods _ (encode_append record t) _ hlength, hempty, List.nil_append]
  by_cases hlong : 2 < t.length
  · rw [if_pos hlong, if_pos hlong]
    obtain ⟨length, hlengthAt, hlengthEq⟩ := readWord_eq_wordAt (record.encode ++ t)
      record.encode.length (by rw [List.length_append]; omega)
    rw [hlengthAt, bind_ok, hlengthEq]
    exact congrArg _ (wordAt_append_add record.encode t 0)
  · rw [if_neg hlong, if_neg hlong]

/-- **With an extension block** what follows is not looked at. -/
theorem clientHelloServerName_block {block : Short16} (hblock : record.block = some block) :
    clientHelloServerName (record.encode ++ t) = clientHelloServerName record.encode := by
  have hframe : record.encodeBlock = frame16 block.1 := by
    rw [HelloRecord.encodeBlock, hblock, Option.elim]
  set offset := 44 + record.sessionId.1.length + (2 + record.cipherSuites.1.length)
    + (1 + record.compressionMethods.1.length) with hoffset
  have hlength : record.encode.length = offset + (2 + block.1.length) := by
    rw [length_encode_record, hframe, length_frame16]
  have hfields : ∀ t : Bytes, clientHelloServerName (record.encode ++ t)
      = if 2 < (frame16 block.1 ++ t).length
        then extensionLoop (record.encode ++ t) (offset + 2 + block.1.length) (offset + 2)
        else .ok none := by
    intro t
    have hwordAt : readWord (record.encode ++ t) offset = .ok block.1.length.toUInt16 := by
      rw [encode_append, hframe, ← List.append_assoc, ← List.append_assoc, ← List.append_assoc]
      apply readWord_frame16
      simp only [List.length_append, length_frame8, length_frame16, record.length_head]
      omega
    rw [clientHelloServerName_fields _ _ record.length_head record.sessionId record.cipherSuites
      record.compressionMethods _ (encode_append record t) offset hoffset, hwordAt, hframe]
    simp only [bind_ok, extractServerName, toNat_toUInt16_length]
  have halone := hfields []
  rw [List.append_nil, List.append_nil] at halone
  rw [hfields, halone]
  by_cases hempty : block.1.length = 0
  · -- nothing to walk over, whether the parser looks or not
    rw [extensionLoop_of_lt (by omega), extensionLoop_of_lt (by omega), ite_self, ite_self]
  · obtain ⟨name, hname⟩ := extensionLoop_defined_of_le (q := offset + 2)
      (show offset + 2 + block.1.length ≤ record.encode.length by omega)
    rw [if_pos (by rw [List.length_append, length_frame16]; omega),
      if_pos (by rw [length_frame16]; omega), hname]
    exact extensionLoop_approx record.encode t _ _ name hname

/-- The version of the record is one that the parser takes. -/
def AcceptsVersion (version : UInt16) : Prop :=
  (0x0300 ≤ version.toNat ∧ version.toNat ≤ 0x0304) ∨ version.toNat = 0x0100

instance (version : UInt16) : Decidable (AcceptsVersion version) :=
  inferInstanceAs (Decidable (_ ∨ _))

/-- What the parser returns for a record and what follows, up to the walk. -/
theorem parse_encode_append (packet : PacketInfo) :
    parse { packet with protocol := IPPROTO_TCP, data := record.encode ++ t }
      = if AcceptsVersion record.version then
          (fun name => some (ProtocolData.tls {
            type := .tls
            contentType := 22
            version := record.version
            isHandshake := true
            isClientHello := true
            isServerHello := false
            serverName := name })) <$> clientHelloServerName (record.encode ++ t)
        else .ok none := by
  have hversion : be16 ((record.encode ++ t).getD 1 0) ((record.encode ++ t).getD 2 0)
      = record.version := be16_encode16 record.version
  have hword : wordAt (record.encode ++ t) 1 = record.version.toNat :=
    congrArg UInt16.toNat hversion
  have hlength : 43 < (record.encode ++ t).length := by
    rw [List.length_append, length_encode_record]
    omega
  have htype : (20 : UInt8) ≤ 22 ∧ (22 : UInt8) ≤ 23 := by decide
  have hhello : IsClientHello (record.encode ++ t) := ⟨rfl, rfl, hlength⟩
  have haccepts : Accepts { packet with protocol := IPPROTO_TCP, data := record.encode ++ t }
      ↔ AcceptsVersion record.version := by
    unfold Accepts AcceptsVersion
    simp only [hword]
    exact ⟨fun h => h.2.2.2, fun h => ⟨trivial, by omega, htype, h⟩⟩
  rw [parse_eq]
  by_cases hok : AcceptsVersion record.version
  · rw [if_pos hok, if_pos (haccepts.mpr hok), if_pos hhello, recordData_eq, hversion]
    rfl
  · rw [if_neg hok, if_neg (mt haccepts.mp hok)]
    rfl

/-- There is nothing behind the record that the parser could read a host name from: the version is
not one it takes, the record has an extension block of its own, or what follows, taken for an
extension block, is too short or walked to its end without a name. -/
def NothingBehind (record : HelloRecord) (t : Bytes) : Prop :=
  ¬ AcceptsVersion record.version ∨ record.block ≠ none ∨ t.length < 3 ∨
    NamesNothing t (2 + wordAt t 0) 2

theorem clientHelloServerName_append_eq (hblock : record.block = none) :
    clientHelloServerName (record.encode ++ t) = clientHelloServerName record.encode
      ↔ t.length < 3 ∨ NamesNothing t (2 + wordAt t 0) 2 := by
  have halone := clientHelloServerName_noBlock record [] hblock
  rw [List.append_nil, if_neg (by simp)] at halone
  rw [clientHelloServerName_noBlock record t hblock, halone]
  by_cases hlong : 2 < t.length
  · rw [if_pos hlong, extractServerName, Nat.add_assoc, extensionLoop_append_eq_none]
    exact ⟨.inr, fun h => h.resolve_left (by omega)⟩
  · rw [if_neg hlong]
    exact ⟨fun _ => .inl (by omega), fun _ => rfl⟩

/-- **What is read from a client hello does not depend on what follows it** exactly where nothing
behind it can be read. -/
theorem parse_append_iff (record : HelloRecord) (t : Bytes) (packet : PacketInfo) :
    parse { packet with protocol := IPPROTO_TCP, data := record.encode ++ t }
        = parse { packet with protocol := IPPROTO_TCP, data := record.encode }
      ↔ NothingBehind record t := by
  have halone := parse_encode_append record [] packet
  rw [List.append_nil] at halone
  rw [parse_encode_append, halone, NothingBehind]
  by_cases hversion : AcceptsVersion record.version
  · have hinj : Function.Injective fun name => some (ProtocolData.tls {
        type := .tls
        contentType := 22
        version := record.version
        isHandshake := true
        isClientHello := true
        isServerHello := false
        serverName := name }) := by
      intro a b h
      injection h with h
      injection h with h
      injection h
    rw [if_pos hversion, if_pos hversion, map_inj_right_of_nonempty @hinj]
    cases hblock : record.block with
    | none =>
      rw [clientHelloServerName_append_eq record t hblock]
      simp [hversion]
    | some block =>
      simp [clientHelloServerName_block record t hblock]
  · simp [hversion]

/-- A client hello without extensions. -/
def plainHello : HelloRecord where
  version := 0x0301
  helloVersion := 0x0303
  random := List.replicate 32 0
  sessionId := ⟨[], by decide⟩
  cipherSuites := ⟨[0, 47], by decide⟩
  compressionMethods := ⟨[0], by decide⟩
  block := none
  random_length := by decide
  record_length := by decide

/-- Behind it, what looks like an extension block with the host name `a` is read as its own. -/
theorem parse_plainHello_append :
    parse { truncatedClientHello with
        data := plainHello.encode ++ [0, 10, 0, 0, 0, 6, 0, 4, 0, 0, 1, 0x61] }
      ≠ parse { truncatedClientHello with data := plainHello.encode } := by
  decide +kernel

end NetSentry.TlsParser
