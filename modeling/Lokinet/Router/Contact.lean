import Lokinet.Net.AddressInfo

/-!
`RouterVersion` (llarp/router_version.cpp) and `RouterContact` (llarp/router_contact.cpp): the
signed record a router publishes about itself. Version 0 of it is the bencoded dict of
`BEncodeSignedSection`, keys in order `a i k n p r u v x z`; version 1 wraps a signature and
a signed dict in a list and is decoded by oxenmq's `bt_list_consumer`, which is the parameter
`decodeVersion1` here.

An SRV record is kept as the bencoded tuple it was decoded from; oxenmq's `bt_deserialize`
followed by `SRVData::IsValid` is the parameter `srvValid`.
-/

namespace Lokinet.Router

open Lokinet.Util Lokinet.Net FaultState

/-- `RouterVersion`: the three numbers of `m_Version` and `m_ProtoVersion`, an `int64_t` kept
here as the 64 bits `bencode_write_uint64` and `bencode_read_integer` carry. -/
structure RouterVersion where
  version : List UInt16
  length_version : version.length = 3
  protoVersion : UInt64
  deriving DecidableEq

namespace RouterVersion

/-- `INVALID_VERSION`, `-1`. -/
def invalidVersion : UInt64 := 0xFFFFFFFFFFFFFFFF

/-- `emptyRouterVersion`, also what `Clear()` leaves. -/
def empty : RouterVersion := ⟨[0, 0, 0], rfl, invalidVersion⟩

def isEmpty (r : RouterVersion) : Bool := r.version == [0, 0, 0] && r.protoVersion == invalidVersion

/-- `RouterVersion::BEncode`: an empty version is the empty list. -/
def bEncode (r : RouterVersion) : BufferM Bool :=
  bEncodeWriteList (if r.isEmpty then []
    else bencodeWriteUint64 r.protoVersion :: r.version.map fun v => bencodeWriteUint64 v.toUInt64)

theorem length_set_version (r : RouterVersion) (n : Nat) (v : UInt16) :
    (r.version.set n v).length = 3 :=
  List.length_set.trans r.length_version

/-- `m_Version[n] = v`. -/
def setVersion (r : RouterVersion) (n : Nat) (v : UInt16) : RouterVersion :=
  ⟨r.version.set n v, r.length_set_version n v, r.protoVersion⟩

/-- The sink of `RouterVersion::BDecode` with the count `idx` of integers read: the first is
the protocol version, the next three the version numbers. -/
def decodeItem : Nat × RouterVersion → BufferM (Option (Nat × RouterVersion))
  | (idx, r) => do
    match ← bencodeReadInteger with
    | none => return none
    | some i =>
      if idx = 0 then return some (1, { r with protoVersion := i })
      if idx > 3 then return none
      return some (idx + 1, r.setVersion (idx - 1) i.toUInt16)

/-- `RouterVersion::BDecode`: a full list or an empty one. -/
def bDecode : BufferM (Option RouterVersion) := do
  let res ← bencodeReadList decodeItem (fun acc => pure (some acc)) (0, empty)
  return res.bind fun (idx, r) => if idx = 4 ∨ idx = 0 then some r else none

end RouterVersion

/-- An SRV record, as the bencoded tuple `SRVData::BDecode` hands to `bt_deserialize`. -/
abbrev SRVRecord := List UInt8

/-- `RouterContact`. -/
structure RouterContact where
  addrs : List AddressInfo
  netID : AlignedBuffer 8
  enckey : AlignedBuffer 32
  pubkey : AlignedBuffer 32
  signature : AlignedBuffer 64
  nickname : AlignedBuffer 32
  lastUpdated : UInt64
  version : UInt64
  routerVersion : Option RouterVersion
  signedBtDict : List UInt8
  srvRecords : List SRVRecord
  deriving DecidableEq

namespace RouterContact

variable (inet : Inet6) (srvValid : SRVRecord → Bool)

/-- `serializeExit`, a constant `true`. -/
def serializeExit : Bool := true

/-- `Clear()`; `netID` and `signed_bt_dict` are left as they were. -/
def clear (rc : RouterContact) : RouterContact :=
  { rc with
    addrs := []
    signature := AlignedBuffer.zero 64
    nickname := AlignedBuffer.zero 32
    enckey := AlignedBuffer.zero 32
    pubkey := AlignedBuffer.zero 32
    routerVersion := none
    lastUpdated := 0
    srvRecords := []
    version := llarpProtoVersion }

/-- `NetID::DefaultValue()`: `LLARP_DEFAULT_NETID` copied over zeros. -/
def defaultNetID : AlignedBuffer 8 := AlignedBuffer.ofPrefix (ascii "lokinet") (by decide)

/-- `RouterContact()`: `Clear()` of a contact whose members hold their defaults. -/
def fresh : RouterContact :=
  clear ⟨[], defaultNetID, AlignedBuffer.zero 32, AlignedBuffer.zero 32, AlignedBuffer.zero 64,
    AlignedBuffer.zero 32, 0, llarpProtoVersion, none, [], []⟩

/-- `Nick()`. -/
def nick (rc : RouterContact) : List UInt8 := rc.nickname.cstr

/-- `SRVData::BDecode`: the tuple is skipped with `bencode_discard`, then parsed and checked. -/
def decodeSRV : BufferM (Option SRVRecord) := do
  let b ← get
  if !(← bencodeDiscard) then return none
  let b' ← get
  let span := (b.mem.drop b.cur).take (b'.cur - b.cur)
  return if srvValid span then some span else none

/-- `RouterContact::DecodeKey`. The keys are compared as C strings of one letter, so at most
one of the tests holds and the chain of `BEncodeMaybeRead*` calls is a chain of branches; an
unknown key is skipped. -/
def decodeKey (rc : RouterContact) (key : List UInt8) : BufferM (Option RouterContact) := do
  if keyIs key "a" then
    return (← bEncodeReadList (AddressInfo.bDecode inet AddressInfo.empty) rc.addrs).map
      fun addrs => { rc with addrs }
  if keyIs key "i" then
    return (← AlignedBuffer.bDecodePrefix).map fun netID => { rc with netID }
  if keyIs key "k" then
    return (← AlignedBuffer.bDecode).map fun pubkey => { rc with pubkey }
  if keyIs key "r" then
    return (← RouterVersion.bDecode).map fun r => { rc with routerVersion := some r }
  if keyIs key "n" then
    return (← AlignedBuffer.bDecodePrefix).map fun nickname => { rc with nickname }
  if keyIs key "s" then
    return (← bEncodeReadList (decodeSRV srvValid) rc.srvRecords).map
      fun srvRecords => { rc with srvRecords }
  if keyIs key "p" then
    return (← AlignedBuffer.bDecode).map fun enckey => { rc with enckey }
  if keyIs key "u" then
    return (← bencodeReadInteger).map fun lastUpdated => { rc with lastUpdated }
  if keyIs key "v" then
    return (← bencodeReadInteger).map fun version => { rc with version }
  if keyIs key "x" && serializeExit then
    return if (← bencodeDiscard) then some rc else none
  if keyIs key "z" then
    return (← AlignedBuffer.bDecode).map fun signature => { rc with signature }
  return if (← bencodeDiscard) then some rc else none

/-- `RouterContact::BDecode`: a dict is version 0, a list version 1. -/
def bDecode (decodeVersion1 : RouterContact → BufferM (Option RouterContact))
    (rc : RouterContact) : BufferM (Option RouterContact) := do
  let rc := rc.clear
  let c ← deref
  if c = 100 then bencodeDecodeDict (decodeKey inet srvValid) rc
  else if c ≠ 108 then return none
  else decodeVersion1 rc

/-- `RouterContact::BEncodeSignedSection`. -/
def bEncodeSignedSection (rc : RouterContact) : BufferM Bool :=
  writeSeq (
    [bencodeStartDict,
      bencodeWriteBytestring (ascii "a"), bEncodeWriteList (rc.addrs.map (AddressInfo.bEncode inet)),
      bencodeWriteBytestring (ascii "i"), bencodeWriteBytestring rc.netID.cstr,
      bencodeWriteBytestring (ascii "k"), rc.pubkey.bEncode] ++
    (if rc.nick ≠ [] then [bencodeWriteBytestring (ascii "n"), bencodeWriteBytestring rc.nick]
      else []) ++
    [bencodeWriteBytestring (ascii "p"), rc.enckey.bEncode] ++
    (match rc.routerVersion with
      | some r => [bencodeWriteBytestring (ascii "r"), r.bEncode]
      | none => []) ++
    (if rc.version > 0 then
      [bencodeWriteBytestring (ascii "s"), bEncodeWriteList (rc.srvRecords.map write)]
      else []) ++
    [bencodeWriteBytestring (ascii "u"), bencodeWriteUint64 rc.lastUpdated,
      bencodeWriteUint64Entry (ascii "v") rc.version] ++
    (if serializeExit then [bencodeWriteBytestring (ascii "x"), bEncodeWriteList []] else []) ++
    (if rc.version = 0 then [bencodeWriteBytestring (ascii "z"), rc.signature.bEncode] else []) ++
    [bencodeEnd])

/-- `RouterContact::BEncode`. -/
def bEncode (rc : RouterContact) : BufferM Bool :=
  if rc.version = 0 then rc.bEncodeSignedSection inet
  else if rc.version = 1 then
    writeSeq [writef ((ascii "li1e") ++ Decimal.decimal 64 ++ [58]), write rc.signature.bytes,
      write rc.signedBtDict, writef [101]]
  else pure false

/-- `MAX_RC_SIZE`. -/
def maxRcSize : Nat := 1024

/-- `RouterContact::VerifySignature`, with `CryptoManager::verify` over the public key, the
signed bytes and the signature as the parameter `verify`. A version-0 contact is checked
against its own encoding with the signature zeroed, written to a buffer of `MAX_RC_SIZE` bytes
and cut at the cursor. -/
def verifySignature (verify : AlignedBuffer 32 → List UInt8 → AlignedBuffer 64 → Bool)
    (rc : RouterContact) : Option Bool :=
  if rc.version = 0 then do
    let copy := { rc with signature := AlignedBuffer.zero 64 }
    let (ok, buf) ← copy.bEncode inet (LlarpBuffer.ofBytes (List.replicate maxRcSize 0))
    return ok && verify rc.pubkey (buf.mem.take buf.cur) rc.signature
  else if rc.version = 1 then some (verify rc.pubkey rc.signedBtDict rc.signature)
  else some false

end RouterContact

end Lokinet.Router
