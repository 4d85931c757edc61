import Lokinet.Net.TrafficPolicy

/-!
The codecs of a hidden service's descriptor (llarp/service/info.cpp, intro.cpp, intro_set.cpp):
`ServiceInfo` (the service's keys), `Introduction` (a path to it) and `IntroSet`, the record a
service publishes and `Verify` checks by encoding it again.

Each `DecodeKey` is a chain of one-letter key tests; a key passes at most one of them, so the
chain is written as a chain of `if`s. The SRV records go through oxenmq's serializer, which is
a parameter here (`SrvCodec`).
-/

namespace Lokinet.Service

open Lokinet.Util Lokinet.Net FaultState

/-- `PQ_PUBKEYSIZE`, the public key size of the sntrup4591761 KEM. -/
def pqPubkeySize : Nat := 1218

/-- `ServiceInfo`; the cached address `UpdateAddr` fills in is left out. -/
structure ServiceInfo where
  enckey : AlignedBuffer 32
  signkey : AlignedBuffer 32
  vanity : AlignedBuffer 16
  version : UInt64
  deriving DecidableEq

namespace ServiceInfo

def empty : ServiceInfo := ⟨AlignedBuffer.zero 32, AlignedBuffer.zero 32, AlignedBuffer.zero 16, llarpProtoVersion⟩

/-- `BEncode`: the version written is `LLARP_PROTO_VERSION`, not the member; a zero vanity
nonce is left out. -/
def bEncode (si : ServiceInfo) : BufferM Bool :=
  writeSeq ([bencodeStartDict, bencodeWriteBytestring (ascii "e"), si.enckey.bEncode,
      bencodeWriteBytestring (ascii "s"), si.signkey.bEncode,
      bencodeWriteUint64Entry (ascii "v") llarpProtoVersion] ++
    (if si.vanity = AlignedBuffer.zero 16 then [] else [bencodeWriteBytestring (ascii "x"), si.vanity.bEncode]) ++
    [bencodeEnd])

def decodeKey (si : ServiceInfo) (key : List UInt8) : BufferM (Option ServiceInfo) := do
  if keyIs key "e" then return (← AlignedBuffer.bDecode).map fun enckey => { si with enckey }
  if keyIs key "s" then return (← AlignedBuffer.bDecode).map fun signkey => { si with signkey }
  if keyIs key "v" then return (← bencodeReadInteger).map fun version => { si with version }
  if keyIs key "x" then return (← AlignedBuffer.bDecode).map fun vanity => { si with vanity }
  return none

def bDecode (si : ServiceInfo) : BufferM (Option ServiceInfo) := bencodeDecodeDict decodeKey si

end ServiceInfo

/-- `Introduction`; `latency` and `expiresAt` are `std::chrono::milliseconds`, whose signed
64-bit count is kept as its bits. -/
structure Introduction where
  router : AlignedBuffer 32
  pathID : AlignedBuffer 16
  latency : UInt64
  expiresAt : UInt64
  version : UInt64
  deriving DecidableEq

namespace Introduction

/-- The element `BEncodeReadList` emplaces. -/
def empty : Introduction := ⟨AlignedBuffer.zero 32, AlignedBuffer.zero 16, 0, 0, llarpProtoVersion⟩

/-- `BEncode`: the latency only when it is positive as a signed count. -/
def bEncode (i : Introduction) : BufferM Bool :=
  writeSeq ([bencodeStartDict, bencodeWriteBytestring (ascii "k"), i.router.bEncode] ++
    (if 0 < i.latency ∧ i.latency < 0x8000000000000000 then [bencodeWriteUint64Entry (ascii "l") i.latency]
      else []) ++
    [bencodeWriteBytestring (ascii "p"), i.pathID.bEncode, bencodeWriteUint64Entry (ascii "v") i.version,
      bencodeWriteUint64Entry (ascii "x") i.expiresAt, bencodeEnd])

def decodeKey (i : Introduction) (key : List UInt8) : BufferM (Option Introduction) := do
  if keyIs key "k" then return (← AlignedBuffer.bDecode).map fun router => { i with router }
  if keyIs key "l" then return (← bencodeReadInteger).map fun latency => { i with latency }
  if keyIs key "p" then return (← AlignedBuffer.bDecode).map fun pathID => { i with pathID }
  if keyIs key "v" then return (← bencodeReadInteger).map fun version => { i with version }
  if keyIs key "x" then return (← bencodeReadInteger).map fun expiresAt => { i with expiresAt }
  return none

def bDecode (i : Introduction) : BufferM (Option Introduction) := bencodeDecodeDict decodeKey i

end Introduction

/-- `dns::SRVTuple`. -/
abbrev SRVTuple := List UInt8 × UInt16 × UInt16 × UInt16 × List UInt8

/-- oxenmq's `bt_serialize` and `bt_deserialize` on the SRV records; `none` is the
`bt_deserialize_invalid` that `DecodeKey` catches. -/
structure SrvCodec where
  serialize : List SRVTuple → List UInt8
  deserialize : List UInt8 → Option (List SRVTuple)

/-- `IntroSet`; the two `std::set`s are their elements in iteration order. -/
structure IntroSet where
  addressKeys : ServiceInfo
  intros : List Introduction
  sntrupKey : AlignedBuffer pqPubkeySize
  topic : AlignedBuffer 16
  srvs : List SRVTuple
  timestampSignedAt : UInt64
  supportedProtocols : List UInt64
  ownedRanges : List IPRange
  exitTrafficPolicy : Option TrafficPolicy
  signature : AlignedBuffer 64
  version : UInt64
  deriving DecidableEq

/-- The decoder's starting value, `IntroSet i;` in `MaybeDecrypt`. -/
def IntroSet.empty : IntroSet :=
  ⟨ServiceInfo.empty, [], AlignedBuffer.zero _, AlignedBuffer.zero 16, [], 0, [], [], none,
    AlignedBuffer.zero 64, llarpProtoVersion⟩

namespace IntroSet

variable (inet : Inet6) (inet4 : Inet4) (bt : BtString) (srv : SrvCodec)

/-- `BEncode`. The topic is written when `Tag::ToString()`, all sixteen bytes, is not empty;
the owned ranges go through `BEncodeWriteSet`, whose body is that of `BEncodeWriteList`. -/
def bEncode (i : IntroSet) : BufferM Bool :=
  writeSeq ([bencodeStartDict, bencodeWriteBytestring (ascii "a"), i.addressKeys.bEncode] ++
    i.exitTrafficPolicy.toList.flatMap
      (fun p => [bencodeWriteBytestring (ascii "e"), p.bEncode inet inet4 bt]) ++
    [bencodeWriteBytestring (ascii "i"), bEncodeWriteList (i.intros.map Introduction.bEncode),
      bencodeWriteBytestring (ascii "k"), i.sntrupKey.bEncode] ++
    (if i.topic.bytes.isEmpty then [] else [bencodeWriteBytestring (ascii "n"), i.topic.bEncode]) ++
    (if i.supportedProtocols.isEmpty then [] else
      [bencodeWriteBytestring (ascii "p"), bencodeStartList] ++
        i.supportedProtocols.map bencodeWriteUint64 ++ [bencodeEnd]) ++
    (if i.ownedRanges.isEmpty then [] else
      [bencodeWriteBytestring (ascii "r"), bEncodeWriteList (i.ownedRanges.map (IPRange.bEncode inet inet4 bt))]) ++
    (if i.srvs.isEmpty then [] else [bencodeWriteBytestring (ascii "s"), write (srv.serialize i.srvs)]) ++
    [bencodeWriteUint64Entry (ascii "t") i.timestampSignedAt, bencodeWriteUint64Entry (ascii "v") i.version,
      bencodeWriteBytestring (ascii "z"), i.signature.bEncode, bencodeEnd])

/-- `DecodeKey`. The exit policy is decoded into a fresh `TrafficPolicy`, the lists and the
set of ranges are added to, and a key none of the tests take is skipped. -/
def decodeKey (i : IntroSet) (key : List UInt8) : BufferM (Option IntroSet) := do
  if keyIs key "a" then
    return (← i.addressKeys.bDecode).map fun addressKeys => { i with addressKeys }
  if keyIs key "e" then
    return (← TrafficPolicy.bDecode inet inet4 bt ⟨[], []⟩).map
      fun p => { i with exitTrafficPolicy := some p }
  if keyIs key "i" then
    return (← bEncodeReadList (Introduction.bDecode Introduction.empty) i.intros).map
      fun intros => { i with intros }
  if keyIs key "k" then return (← AlignedBuffer.bDecode).map fun sntrupKey => { i with sntrupKey }
  if keyIs key "n" then return (← AlignedBuffer.bDecode).map fun topic => { i with topic }
  if keyIs key "p" then
    let ps ← bencodeReadList
      (fun ps => do
        match ← bencodeReadInteger with
        | none => return none
        | some v => return some (ps ++ [v]))
      (fun ps => pure (some ps)) i.supportedProtocols
    return ps.map fun supportedProtocols => { i with supportedProtocols }
  if keyIs key "r" then
    return (← bEncodeReadSet IPRange.lt (IPRange.bDecode inet inet4 bt) i.ownedRanges).map
      fun ownedRanges => { i with ownedRanges }
  if keyIs key "s" then
    let b ← get
    if !(← bencodeDiscard) then return none
    let b' ← get
    return (srv.deserialize ((b.mem.drop b.cur).take (b'.cur - b.cur))).map fun srvs => { i with srvs }
  if keyIs key "t" then
    return (← bencodeReadInteger).map fun timestampSignedAt => { i with timestampSignedAt }
  if keyIs key "v" then return (← bencodeReadInteger).map fun version => { i with version }
  if keyIs key "z" then return (← AlignedBuffer.bDecode).map fun signature => { i with signature }
  return if (← bencodeDiscard) then some i else none

def bDecode (i : IntroSet) : BufferM (Option IntroSet) := bencodeDecodeDict (decodeKey inet inet4 bt srv) i

end IntroSet

end Lokinet.Service
