import NetSentry.Network.ClientHello
import NetSentry.Network.Equiv.TlsParser

/-!
# Decoding a client hello

`parse_clientHello`: `TlsParser.parse` on a packet that carries a well-formed client hello returns
its version and exactly the host name of its server name extension.

The extension walk stays aligned on the extensions (`extensionLoop_encodeExtensions`, by induction
on the list): an extension of another type is stepped over (`extensionLoop_other`) and a server name
extension ends the walk with its host name (`extensionLoop_serverName`).  Before the walk, each
length field moves the offset to the next field (`clientHelloServerName_fields`).
-/

namespace NetSentry.TlsParser

open Bytes Checked

/-! ### The extension walk -/

theorem extensionLoop_of_lt {data : Bytes} {endOffset pos : ℕ} (h : endOffset < pos + 4) :
    extensionLoop data endOffset pos = .ok none := by
  rw [extensionLoop, if_neg (by omega)]
  rfl

theorem extensionLoop_other (pre rest : Bytes) (endOffset : ℕ) {type : UInt16} (body : Short16)
    (htype : type ≠ 0) (hend : pre.length + 4 ≤ endOffset) :
    extensionLoop (pre ++ (encode16 type ++ (frame16 body.1 ++ rest))) endOffset pre.length
      = extensionLoop (pre ++ (encode16 type ++ (frame16 body.1 ++ rest))) endOffset
          (pre.length + 4 + body.1.length) := by
  conv_lhs => rw [extensionLoop]
  have htypeAt : readWord (pre ++ (encode16 type ++ (frame16 body.1 ++ rest))) pre.length
      = .ok type := readWord_append _ _ _ rfl
  have hlengthAt : readWord (pre ++ (encode16 type ++ (frame16 body.1 ++ rest))) (pre.length + 2)
      = .ok body.1.length.toUInt16 := by
    rw [← List.append_assoc]
    exact readWord_frame16 _ _ (by simp)
  rw [if_pos hend, htypeAt, hlengthAt]
  simp only [bind_ok]
  rw [if_neg (fun h => htype h.1), toNat_toUInt16_length]

theorem extensionLoop_serverName {pre : Bytes} (rest : Bytes) {endOffset : ℕ}
    (names : ServerNameList) (hend : pre.length + 4 + names.body.1.length ≤ endOffset) :
    extensionLoop (pre ++ ((HelloExtension.serverName names).encode ++ rest)) endOffset pre.length
      = .ok (some names.hostName) := by
  have hlen := names.length_lt
  have hentries := names.length_entries
  have hbody : names.body.1.length = 2 + names.entries.length := by
    rw [ServerNameList.body, length_frame16]
  have hname : 0 < names.hostName.length := List.length_pos_iff.mpr names.hostName_ne_nil
  have hbodyNat : names.body.1.length.toUInt16.toNat = names.body.1.length :=
    toNat_toUInt16_length names.body
  have hentriesNat : names.entries.length.toUInt16.toNat = names.entries.length :=
    toNat_toUInt16_length ⟨names.entries, by omega⟩
  have hnameNat : names.hostName.length.toUInt16.toNat = names.hostName.length :=
    toNat_toUInt16_length ⟨names.hostName, by omega⟩
  -- the bytes, field by field
  have hdata : pre ++ ((HelloExtension.serverName names).encode ++ rest)
      = pre ++ (encode16 0 ++ (encode16 names.body.1.length.toUInt16
        ++ (encode16 names.entries.length.toUInt16 ++ (0 :: (encode16
          names.hostName.length.toUInt16 ++ (names.hostName ++ (names.others ++ rest))))))) := by
    simp [HelloExtension.encode, HelloExtension.type, HelloExtension.body, ServerNameList.body,
      ServerNameList.entries, frame16]
  rw [hdata]
  set data := pre ++ (encode16 0 ++ (encode16 names.body.1.length.toUInt16
    ++ (encode16 names.entries.length.toUInt16 ++ (0 :: (encode16
      names.hostName.length.toUInt16 ++ (names.hostName ++ (names.others ++ rest))))))) with hdata'
  have htypeAt : readWord data pre.length = .ok 0 := readWord_append _ _ _ rfl
  have hlengthAt : readWord data (pre.length + 2) = .ok names.body.1.length.toUInt16 := by
    rw [hdata', ← List.append_assoc]
    exact readWord_append _ _ _ (by simp)
  have hlistAt : readWord data (pre.length + 4) = .ok names.entries.length.toUInt16 := by
    rw [hdata', ← List.append_assoc, ← List.append_assoc]
    exact readWord_append _ _ _ (by simp)
  have hnameTypeAt : readAt data (pre.length + 4 + 2) = .ok 0 := by
    rw [hdata', ← List.append_assoc, ← List.append_assoc, ← List.append_assoc]
    exact readAt_append _ _ _ (by simp)
  have hnameLengthAt : readWord data (pre.length + 4 + 2 + 1)
      = .ok names.hostName.length.toUInt16 := by
    rw [hdata', ← List.append_assoc, ← List.append_assoc, ← List.append_assoc, List.append_cons]
    exact readWord_append _ _ _ (by simp)
  have hnameAt : rangeAt data (pre.length + 4 + 2 + 3)
      (pre.length + 4 + 2 + 3 + names.hostName.length) = .ok names.hostName := by
    rw [hdata', ← List.append_assoc, ← List.append_assoc, ← List.append_assoc, List.append_cons,
      ← List.append_assoc]
    exact rangeAt_append _ _ _ (by simp) (by simp)
  rw [extensionLoop, if_pos (by omega), htypeAt, hlengthAt]
  simp only [bind_ok, hbodyNat]
  rw [if_pos ⟨trivial, hend, by omega⟩, hlistAt]
  simp only [bind_ok, hentriesNat]
  rw [if_pos ⟨by omega, by omega⟩, hnameTypeAt, hnameLengthAt]
  simp only [bind_ok, hnameNat]
  rw [if_pos ⟨trivial, by omega⟩, hnameAt]
  rfl

/-- **The walk over a list of extensions** finds the host name of the first server name extension,
or reaches the end of the block. -/
theorem extensionLoop_encodeExtensions (extensions : List HelloExtension) (pre rest : Bytes) :
    extensionLoop (pre ++ (encodeExtensions extensions ++ rest))
        (pre.length + (encodeExtensions extensions).length) pre.length
      = .ok (extensions.findSome? HelloExtension.hostName) := by
  induction extensions generalizing pre with
  | nil => exact extensionLoop_of_lt (by simp [encodeExtensions])
  | cons extension extensions ih =>
    have hcons : encodeExtensions (extension :: extensions)
        = extension.encode ++ encodeExtensions extensions := List.flatMap_cons
    have hlen := extension.length_encode
    rw [hcons, List.length_append, List.append_assoc]
    cases hext : extension with
    | serverName names =>
      rw [hext] at hlen
      have hbody : (HelloExtension.serverName names).body = names.body := rfl
      rw [hbody] at hlen
      rw [extensionLoop_serverName _ names (by omega)]
      rfl
    | other type body htype =>
      rw [hext] at hlen
      have hbody : (HelloExtension.other type body htype).body = body := rfl
      rw [hbody] at hlen
      have hencode : (HelloExtension.other type body htype).encode
          = encode16 type ++ frame16 body.1 := rfl
      have hstep := extensionLoop_other pre (encodeExtensions extensions ++ rest)
        (pre.length + ((HelloExtension.other type body htype).encode.length
          + (encodeExtensions extensions).length)) body htype (by omega)
      rw [← List.append_assoc (encode16 type), ← hencode] at hstep
      have hrec := ih (pre ++ (HelloExtension.other type body htype).encode)
      rw [List.length_append, List.append_assoc, Nat.add_assoc] at hrec
      rw [hstep, Nat.add_assoc pre.length, ← hlen, hrec]
      rfl

/-! ### The fields before the extension block -/

/-- With the session id at offset 43, each length field moves the offset to the next field, and the
extension block is looked for behind the compression methods when more than two bytes are left. -/
theorem clientHelloServerName_fields (pre block : Bytes) (hpre : pre.length = 43)
    (sessionId : Short8) (cipherSuites : Short16) (compressionMethods : Short8) (data : Bytes)
    (hdata : data = pre ++ (frame8 sessionId.1 ++ (frame16 cipherSuites.1
      ++ (frame8 compressionMethods.1 ++ block)))) (offset : ℕ)
    (hoffset : offset = 44 + sessionId.1.length + (2 + cipherSuites.1.length)
      + (1 + compressionMethods.1.length)) :
    clientHelloServerName data
      = if 2 < block.length then do
          let extensionsLength ← readWord data offset
          extractServerName data (offset + 2) extensionsLength.toNat
        else .ok none := by
  have hsid := toNat_toUInt8_length sessionId
  have hcs := toNat_toUInt16_length cipherSuites
  have hcomp := toNat_toUInt8_length compressionMethods
  have hlen : data.length = 43 + (1 + sessionId.1.length) + (2 + cipherSuites.1.length)
      + (1 + compressionMethods.1.length) + block.length := by
    simp only [hdata, List.length_append, length_frame8, length_frame16, hpre]
    omega
  have hsidAt : readAt data 43 = .ok sessionId.1.length.toUInt8 := by
    rw [hdata]
    exact readAt_frame8 _ _ hpre.symm
  have hcsAt : readWord data (44 + sessionId.1.length) = .ok cipherSuites.1.length.toUInt16 := by
    rw [hdata, ← List.append_assoc]
    apply readWord_frame16
    rw [List.length_append, length_frame8]
    omega
  have hcompAt : readAt data (44 + sessionId.1.length + (2 + cipherSuites.1.length))
      = .ok compressionMethods.1.length.toUInt8 := by
    rw [hdata, ← List.append_assoc, ← List.append_assoc]
    apply readAt_frame8
    rw [List.length_append, List.length_append, length_frame8, length_frame16]
    omega
  unfold clientHelloServerName
  rw [hsidAt]
  simp only [bind_ok, hsid]
  rw [if_pos (by omega), hcsAt]
  simp only [bind_ok, hcs]
  by_cases hcompMore : 44 + sessionId.1.length + (2 + cipherSuites.1.length) + 1 < data.length
  · rw [if_pos hcompMore, hcompAt]
    simp only [bind_ok, hcomp, ← hoffset]
    exact if_congr (by omega) rfl rfl
  · -- no compression methods, and nothing behind them
    rw [if_neg hcompMore, if_neg (by omega)]
    rfl

theorem clientHelloServerName_append (pre rest : Bytes) (hpre : pre.length = 43)
    (sessionId : Short8) (cipherSuites : Short16) (compressionMethods : Short8)
    (extensions : List HelloExtension) (hblock : (encodeExtensions extensions).length < 2 ^ 16)
    (hne : encodeExtensions extensions ++ rest ≠ []) :
    clientHelloServerName (pre ++ (frame8 sessionId.1 ++ (frame16 cipherSuites.1
        ++ (frame8 compressionMethods.1 ++ (frame16 (encodeExtensions extensions) ++ rest)))))
      = .ok (extensions.findSome? HelloExtension.hostName) := by
  have hext := toNat_toUInt16_length ⟨encodeExtensions extensions, hblock⟩
  have hmore : 2 < (frame16 (encodeExtensions extensions) ++ rest).length := by
    have hpos := List.length_pos_iff.mpr hne
    rw [List.length_append] at hpos
    rw [List.length_append, length_frame16]
    omega
  have hframe : frame16 (encodeExtensions extensions)
      = encode16 (encodeExtensions extensions).length.toUInt16 ++ encodeExtensions extensions := rfl
  set fields := pre ++ (frame8 sessionId.1 ++ (frame16 cipherSuites.1
    ++ frame8 compressionMethods.1)) with hfields
  set offset := 44 + sessionId.1.length + (2 + cipherSuites.1.length)
    + (1 + compressionMethods.1.length) with hoffset
  have hlen : fields.length = offset := by
    simp only [hfields, List.length_append, length_frame8, length_frame16]
    omega
  rw [clientHelloServerName_fields pre _ hpre sessionId cipherSuites compressionMethods _ rfl offset
    hoffset, if_pos hmore]
  have hdata : pre ++ (frame8 sessionId.1 ++ (frame16 cipherSuites.1
      ++ (frame8 compressionMethods.1 ++ (frame16 (encodeExtensions extensions) ++ rest))))
      = fields ++ (encode16 (encodeExtensions extensions).length.toUInt16
        ++ (encodeExtensions extensions ++ rest)) := by
    rw [hfields, hframe]
    simp only [List.append_assoc]
  have hextAt : readWord (fields ++ (encode16 (encodeExtensions extensions).length.toUInt16
      ++ (encodeExtensions extensions ++ rest))) offset
        = .ok (encodeExtensions extensions).length.toUInt16 := readWord_append _ _ _ hlen.symm
  -- the walk starts right after the length of the block
  have hwalk := extensionLoop_encodeExtensions extensions
    (fields ++ encode16 (encodeExtensions extensions).length.toUInt16) rest
  rw [List.length_append, length_encode16, hlen, List.append_assoc] at hwalk
  rw [hdata, hextAt]
  simp only [bind_ok, hext]
  rw [extractServerName, hwalk]

/-- A client hello that ends with its compression methods, or with an empty extension block, has no
server name. -/
theorem clientHelloServerName_short (pre : Bytes) (hpre : pre.length = 43) (sessionId : Short8)
    (cipherSuites : Short16) (compressionMethods : Short8) (block : Bytes)
    (hblock : block.length ≤ 2) :
    clientHelloServerName (pre ++ (frame8 sessionId.1 ++ (frame16 cipherSuites.1
        ++ (frame8 compressionMethods.1 ++ block)))) = .ok none := by
  rw [clientHelloServerName_fields pre block hpre sessionId cipherSuites compressionMethods _ rfl _
    rfl, if_neg (by omega)]

/-! ### The record -/

theorem clientHelloServerName_encode (hello : ClientHello) :
    clientHelloServerName hello.encode = .ok hello.serverName := by
  have hshort : ∀ block : Bytes, block.length ≤ 2 → hello.toRecord.encodeBlock = block →
      clientHelloServerName hello.encode = .ok none := by
    intro block hblock heq
    rw [ClientHello.encode, hello.toRecord.encode_eq, heq]
    exact clientHelloServerName_short _ hello.toRecord.length_head _ _ _ _ hblock
  cases hext : hello.extensions with
  | none =>
    rw [hshort [] (by simp) (by rw [hello.encodeBlock_toRecord, hext]; rfl), ClientHello.serverName,
      hext]
    rfl
  | some extensions =>
    have hblock : hello.toRecord.encodeBlock = frame16 (encodeExtensions extensions) ++ [] := by
      rw [hello.encodeBlock_toRecord, hext, List.append_nil]
      rfl
    cases extensions with
    | nil =>
      rw [hshort _ (by simp [encodeExtensions]) hblock, ClientHello.serverName, hext]
      rfl
    | cons extension extensions =>
      have hlength : (encodeExtensions (extension :: extensions)).length < 2 ^ 16 :=
        hello.block_length _ hext
      have hne : encodeExtensions (extension :: extensions) ++ [] ≠ [] := by
        simp [encodeExtensions, HelloExtension.encode, encode16]
      rw [ClientHello.encode, hello.toRecord.encode_eq, hblock, clientHelloServerName_append _ _
        hello.toRecord.length_head _ _ _ _ hlength hne, ClientHello.serverName, hext]
      rfl

/-- The fields of the record that do not need the walk. -/
theorem recordData_encode (hello : ClientHello) : recordData hello.encode =
    { type := .tls
      contentType := 22
      version := hello.version
      isHandshake := true
      isClientHello := true
      isServerHello := false } := by
  have hversion : be16 (hello.encode.getD 1 0) (hello.encode.getD 2 0) = hello.version :=
    be16_encode16 hello.version
  rw [recordData_eq, hversion]
  rfl

theorem accepts_encode (hello : ClientHello) (packet : PacketInfo) :
    Accepts { packet with protocol := IPPROTO_TCP, data := hello.encode } := by
  have hlen : 5 ≤ hello.encode.length := by
    rw [ClientHello.encode, hello.toRecord.encode_eq, List.length_append,
      hello.toRecord.length_head]
    omega
  have hversion : wordAt hello.encode 1 = hello.version.toNat :=
    congrArg UInt16.toNat (be16_encode16 hello.version)
  have htype : (20 : UInt8) ≤ 22 ∧ (22 : UInt8) ≤ 23 := by decide
  refine ⟨rfl, hlen, htype, ?_⟩
  rw [hversion]
  rcases hello.version_accepted with ⟨hlo, hhi⟩ | hversion
  · left
    exact ⟨UInt16.le_iff_toNat_le.mp hlo, UInt16.le_iff_toNat_le.mp hhi⟩
  · right
    rw [hversion]
    rfl

theorem isClientHello_encode (hello : ClientHello) : IsClientHello hello.encode := by
  refine ⟨rfl, rfl, ?_⟩
  rw [ClientHello.encode, hello.toRecord.encode_eq, List.length_append,
    hello.toRecord.length_head, List.length_append, length_frame8]
  omega

theorem parse_encode (hello : ClientHello) (packet : PacketInfo) :
    parse { packet with protocol := IPPROTO_TCP, data := hello.encode }
      = .ok (some (.tls {
          type := .tls
          contentType := 22
          version := hello.version
          isHandshake := true
          isClientHello := true
          isServerHello := false
          serverName := hello.serverName })) := by
  rw [parse_eq, if_pos (accepts_encode hello packet), if_pos (isClientHello_encode hello),
    clientHelloServerName_encode, recordData_encode]
  rfl

/-- **Decoding undoes encoding.**  The server name read is the host name of the server name
extension, and there is none exactly where there is no such extension. -/
theorem parse_clientHello (hello : ClientHello) (packet : PacketInfo) :
    parse { packet with protocol := IPPROTO_TCP, data := hello.encode }
        = .ok (some (.tls {
            type := .tls
            contentType := 22
            version := hello.version
            isHandshake := true
            isClientHello := true
            isServerHello := false
            serverName := hello.serverName }))
      ∧ (hello.serverName = none ↔ ∀ block ∈ hello.extensions, ∀ e ∈ block, e.type ≠ 0)
      ∧ ∀ block ∈ hello.extensions, ∀ names, HelloExtension.serverName names ∈ block →
          hello.serverName = some names.hostName :=
  ⟨parse_encode hello packet, ClientHello.serverName_eq_none,
    fun _ hblock _ hnames => ClientHello.serverName_of_mem hblock hnames⟩

/-- The server name list with the one name `a.example`. -/
def exampleNames : ServerNameList where
  hostName := ascii "a.example"
  others := []
  hostName_ne_nil := by decide
  length_lt := by decide

/-- A client hello with a server name between two other extensions. -/
def helloWithName : ClientHello where
  version := 0x0301
  helloVersion := 0x0303
  random := List.replicate 32 7
  sessionId := ⟨[1, 2, 3], by decide⟩
  cipherSuites := ⟨[0x13, 1, 0x13, 2], by decide⟩
  compressionMethods := ⟨[1, 0], by decide⟩
  extensions := some [.other 0xff01 ⟨[0], by decide⟩ (by decide), .serverName exampleNames,
    .other 23 ⟨[], by decide⟩ (by decide)]
  version_accepted := by decide
  random_length := by decide
  atMostOne := by decide
  block_length := by decide
  record_length := by decide

theorem parse_clientHello_helloWithName :
    parse { PacketInfo.defaultInit ⟨0, 0, 0, 0, 0⟩ with
        protocol := IPPROTO_TCP, data := helloWithName.encode }
      = .ok (some (.tls {
          type := .tls
          contentType := 22
          version := 0x0301
          isHandshake := true
          isClientHello := true
          isServerHello := false
          serverName := some (ascii "a.example") })) := by
  obtain ⟨hparse, -, hname⟩ := parse_clientHello helloWithName (.defaultInit ⟨0, 0, 0, 0, 0⟩)
  have hmem : HelloExtension.serverName exampleNames ∈ helloWithName.extensions.getD [] :=
    .tail _ (.head _)
  rwa [hname _ rfl exampleNames hmem] at hparse

end NetSentry.TlsParser
