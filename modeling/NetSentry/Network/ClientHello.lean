import NetSentry.Network.ProtocolData

/-!
# Client hello records

The wire format of a TLS client hello: a handshake record of length-prefixed fields.  The lengths of
a `HelloRecord` fit their prefixes, and its extension block may hold anything; a `ClientHello` is
well-formed throughout.  `encode` writes them out with consistent length fields.
-/

namespace NetSentry

open Bytes

/-! ### Records with any extension block -/

/-- A client hello record with consistent length fields, of any version, whose extension block may
hold anything. -/
structure HelloRecord where
  version : UInt16
  helloVersion : UInt16
  random : Bytes
  sessionId : Short8
  cipherSuites : Short16
  compressionMethods : Short8
  /-- The extension block without its length, which may be left out. -/
  block : Option Short16
  random_length : random.length = 32
  record_length : 42 + sessionId.1.length + cipherSuites.1.length + compressionMethods.1.length
    + block.elim 0 (fun b => 2 + b.1.length) < 2 ^ 16

namespace HelloRecord

/-- The extension block after its length; nothing where it is left out. -/
def encodeBlock (record : HelloRecord) : Bytes := record.block.elim [] fun b => frame16 b.1

/-- The body of the handshake message. -/
def encodeBody (record : HelloRecord) : Bytes :=
  encode16 record.helloVersion ++ (record.random ++ (frame8 record.sessionId.1 ++
    (frame16 record.cipherSuites.1 ++ (frame8 record.compressionMethods.1 ++ record.encodeBlock))))

/-- The handshake message: type 1 and the body after its three-byte length. -/
def encodeHandshake (record : HelloRecord) : Bytes :=
  1 :: (record.encodeBody.length / 2 ^ 16).toUInt8 ::
    (encode16 record.encodeBody.length.toUInt16 ++ record.encodeBody)

/-- The record: content type 22, the version and the handshake message after its length. -/
def encode (record : HelloRecord) : Bytes :=
  22 :: (encode16 record.version ++ frame16 record.encodeHandshake)

/-- The part of the record before the session id. -/
def head (record : HelloRecord) : Bytes :=
  22 :: (encode16 record.version ++ (encode16 record.encodeHandshake.length.toUInt16 ++
    (1 :: (record.encodeBody.length / 2 ^ 16).toUInt8 ::
      (encode16 record.encodeBody.length.toUInt16
        ++ (encode16 record.helloVersion ++ record.random)))))

theorem length_head (record : HelloRecord) : record.head.length = 43 := by
  simp [head, record.random_length]

theorem encode_eq (record : HelloRecord) :
    record.encode = record.head ++ (frame8 record.sessionId.1 ++ (frame16 record.cipherSuites.1 ++
      (frame8 record.compressionMethods.1 ++ record.encodeBlock))) := by
  have hbody : record.encodeBody = encode16 record.helloVersion ++ (record.random ++
      (frame8 record.sessionId.1 ++ (frame16 record.cipherSuites.1 ++
        (frame8 record.compressionMethods.1 ++ record.encodeBlock)))) := rfl
  have hhandshake : frame16 record.encodeHandshake
      = encode16 record.encodeHandshake.length.toUInt16
        ++ (1 :: (record.encodeBody.length / 2 ^ 16).toUInt8 ::
          (encode16 record.encodeBody.length.toUInt16 ++ record.encodeBody)) := rfl
  rw [encode, hhandshake, head]
  conv_lhs => rw [hbody]
  simp only [List.cons_append, List.append_assoc]
  rw [← hbody]

end HelloRecord

/-! ### Extensions -/

/-- The server name list of an extension of type 0: a `host_name` entry with a non-empty name, then
the encoding of any further entries. -/
structure ServerNameList where
  hostName : Bytes
  others : Bytes
  hostName_ne_nil : hostName ≠ []
  length_lt : 5 + hostName.length + others.length < 2 ^ 16

namespace ServerNameList

/-- The entries: name type 0, the name after its length, then the further entries. -/
def entries (names : ServerNameList) : Bytes := 0 :: (frame16 names.hostName ++ names.others)

theorem length_entries (names : ServerNameList) :
    names.entries.length = 3 + names.hostName.length + names.others.length := by
  rw [entries, List.length_cons, List.length_append, length_frame16]
  omega

/-- The body of the extension: the entries after their length. -/
def body (names : ServerNameList) : Short16 :=
  ⟨frame16 names.entries, by
    have h := names.length_lt
    rw [length_frame16, length_entries]
    omega⟩

end ServerNameList

/-- An extension of a client hello. -/
inductive HelloExtension
  | serverName (names : ServerNameList)
  | other (type : UInt16) (body : Short16) (type_ne_zero : type ≠ 0)

namespace HelloExtension

def type : HelloExtension → UInt16
  | serverName _ => 0
  | other type _ _ => type

def body : HelloExtension → Short16
  | serverName names => names.body
  | other _ body _ => body

/-- The host name the extension carries, if it is a server name extension. -/
def hostName : HelloExtension → Option Bytes
  | serverName names => some names.hostName
  | other _ _ _ => none

/-- The type, then the body after its length. -/
def encode (extension : HelloExtension) : Bytes :=
  encode16 extension.type ++ frame16 extension.body.1

theorem length_encode (extension : HelloExtension) :
    extension.encode.length = 4 + extension.body.1.length := by
  rw [encode, List.length_append, length_encode16, length_frame16]
  omega

theorem hostName_eq_none {extension : HelloExtension} :
    extension.hostName = none ↔ extension.type ≠ 0 := by
  cases extension with
  | serverName names => simp [hostName, type]
  | other t b h => simpa [hostName, type] using h

end HelloExtension

/-- The extensions one after the other. -/
def encodeExtensions (extensions : List HelloExtension) : Bytes :=
  extensions.flatMap HelloExtension.encode

/-! ### Records with well-formed extensions -/

/-- A well-formed client hello. -/
structure ClientHello where
  /-- The version of the record. -/
  version : UInt16
  helloVersion : UInt16
  random : Bytes
  sessionId : Short8
  /-- The encoded list of cipher suites. -/
  cipherSuites : Short16
  compressionMethods : Short8
  /-- The extension block, which may be left out. -/
  extensions : Option (List HelloExtension)
  version_accepted : (0x0300 ≤ version ∧ version ≤ 0x0304) ∨ version = 0x0100
  random_length : random.length = 32
  atMostOne : ∀ block ∈ extensions, (block.countP fun e => e.type = 0) ≤ 1
  block_length : ∀ block ∈ extensions, (encodeExtensions block).length < 2 ^ 16
  record_length : 42 + sessionId.1.length + cipherSuites.1.length + compressionMethods.1.length
    + extensions.elim 0 (fun block => 2 + (encodeExtensions block).length) < 2 ^ 16

namespace ClientHello

/-- The record, with its extensions encoded. -/
def toRecord (hello : ClientHello) : HelloRecord where
  version := hello.version
  helloVersion := hello.helloVersion
  random := hello.random
  sessionId := hello.sessionId
  cipherSuites := hello.cipherSuites
  compressionMethods := hello.compressionMethods
  block := hello.extensions.pmap (fun block h => ⟨encodeExtensions block, h⟩) hello.block_length
  random_length := hello.random_length
  record_length := by simpa using hello.record_length

/-- The bytes of the record. -/
def encode (hello : ClientHello) : Bytes := hello.toRecord.encode

theorem encodeBlock_toRecord (hello : ClientHello) : hello.toRecord.encodeBlock
    = hello.extensions.elim [] fun block => frame16 (encodeExtensions block) := by
  simp [HelloRecord.encodeBlock, toRecord]

/-- The host name of the server name extension, if there is one. -/
def serverName (hello : ClientHello) : Option Bytes :=
  hello.extensions.bind fun block => block.findSome? HelloExtension.hostName

/-- There is no server name exactly where there is no extension of type 0. -/
theorem serverName_eq_none {hello : ClientHello} :
    hello.serverName = none ↔ ∀ block ∈ hello.extensions, ∀ e ∈ block, e.type ≠ 0 := by
  unfold serverName
  cases hello.extensions with
  | none => simp
  | some block => simp [List.findSome?_eq_none_iff, HelloExtension.hostName_eq_none]

/-- A server name extension of the block is the one whose host name is read. -/
theorem serverName_of_mem {hello : ClientHello} {block : List HelloExtension}
    (hblock : block ∈ hello.extensions) {names : ServerNameList}
    (hnames : HelloExtension.serverName names ∈ block) :
    hello.serverName = some names.hostName := by
  have hone := hello.atMostOne block hblock
  obtain ⟨before, after, rfl⟩ := List.append_of_mem hnames
  rw [List.countP_append, List.countP_cons_of_pos (by simp [HelloExtension.type])] at hone
  have hbefore : ∀ e ∈ before, e.hostName = none := by
    intro e he
    rw [HelloExtension.hostName_eq_none]
    intro htype
    have hcount : 0 < before.countP fun e => e.type = 0 :=
      List.countP_pos_iff.mpr ⟨e, he, by simpa using htype⟩
    omega
  rw [serverName, Option.mem_def.mp hblock, Option.bind_some, List.findSome?_append,
    List.findSome?_eq_none_iff.mpr hbefore]
  rfl

end ClientHello

end NetSentry
