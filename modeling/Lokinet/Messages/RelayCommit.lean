import Lokinet.Path.Path

/-!
`LR_CommitRecord` (llarp/messages/relay_commit.hpp, relay_commit.cpp), the record a path builder
encrypts for each hop, through `BEncode`, `OnKey` and `BDecode`, and the proof of work it may
carry (llarp/pow.hpp, pow.cpp).

`llarp_time_t` is a count of milliseconds in an `int64_t`; a lifetime is written as the
`uint64_t` of that count and read back through `static_cast<llarp_time_t>` of a `uint64_t`.
-/

namespace Lokinet.Messages

open Lokinet.Util Lokinet.Net Lokinet.Router

/-- `PoW`. -/
structure PoW where
  timestamp : Int
  extendedLifetime : Int
  nonce : AlignedBuffer 32
  version : UInt64
  deriving DecidableEq

namespace PoW

/-- `PoW()`. -/
def create : PoW := ⟨0, 0, AlignedBuffer.zero 32, llarpProtoVersion⟩

/-- `PoW::DecodeKey`, unimplemented in the source: it refuses every key. -/
def decodeKey (_ : PoW) (_ : List UInt8) : BufferM (Option PoW) := pure none

/-- `PoW::BEncode`, unimplemented in the source: an empty dict. -/
def bEncode (_ : PoW) : BufferM Bool := writeSeq [bencodeStartDict, bencodeEnd]

end PoW

/-- `static_cast<llarp_time_t>` of a `uint64_t`: the milliseconds its bits count as an
`int64_t`. -/
def timeOfUint64 (i : UInt64) : Int := i.toInt64.toInt

/-- `LR_CommitRecord`. -/
structure LRCommitRecord where
  commkey : Path.PubKey
  nextHop : Path.RouterID
  tunnelNonce : Path.TunnelNonce
  txid : Path.PathID
  rxid : Path.PathID
  nextRC : Option RouterContact
  work : Option PoW
  version : UInt64
  lifetime : Int

namespace LRCommitRecord

variable (inet : Inet6) (srvValid : SRVRecord → Bool)
  (decodeVersion1 : RouterContact → BufferM (Option RouterContact))

/-- `LR_CommitRecord()`: zero keys and ids, no contact, no proof of work, version and lifetime
zero. -/
def create : LRCommitRecord :=
  ⟨AlignedBuffer.zero 32, AlignedBuffer.zero 32, AlignedBuffer.zero 32, AlignedBuffer.zero 16,
    AlignedBuffer.zero 16, none, none, 0, 0⟩

/-- `BEncode`. A lifetime above 10 s and below `path::default_lifetime` goes through
`BEncodeWriteDictInt` under the key `i`, the key `nextHop` was written under just before. -/
def bEncode (r : LRCommitRecord) : BufferM Bool :=
  writeSeq (
    [bencodeStartDict,
      bencodeWriteBytestring (ascii "c"), r.commkey.bEncode,
      bencodeWriteBytestring (ascii "i"), r.nextHop.bEncode] ++
    (if 10000 < r.lifetime ∧ r.lifetime < Path.defaultLifetime then
      [bencodeWriteBytestring (ascii "i"), bencodeWriteUint64 (UInt64.ofInt r.lifetime)]
      else []) ++
    [bencodeWriteBytestring (ascii "n"), r.tunnelNonce.bEncode,
      bencodeWriteBytestring (ascii "r"), r.rxid.bEncode,
      bencodeWriteBytestring (ascii "t"), r.txid.bEncode] ++
    (match r.nextRC with
      | some rc => [bencodeWriteBytestring (ascii "u"), rc.bEncode inet]
      | none => []) ++
    [bencodeWriteUint64Entry (ascii "v") llarpProtoVersion] ++
    (match r.work with
      | some w => [bencodeWriteBytestring (ascii "w"), w.bEncode]
      | none => []) ++
    [bencodeEnd])

/-- `OnKey`. The keys are compared as C strings of one letter, so at most one test holds and
the chain of `BEncodeMaybe*` calls is a chain of branches. A key none of them takes leaves
`read` false and stops the read, and so does a version other than `LLARP_PROTO_VERSION`; the
lifetime is read under `l`. A contact is decoded into a new `RouterContact`, and a second proof
of work is refused. -/
def onKey (r : LRCommitRecord) (key : List UInt8) : BufferM (Option LRCommitRecord) := do
  if keyIs key "c" then
    return (← AlignedBuffer.bDecode).map fun commkey => { r with commkey }
  if keyIs key "i" then
    return (← AlignedBuffer.bDecode).map fun nextHop => { r with nextHop }
  if keyIs key "l" then
    return (← bencodeReadInteger).map fun i => { r with lifetime := timeOfUint64 i }
  if keyIs key "n" then
    return (← AlignedBuffer.bDecode).map fun tunnelNonce => { r with tunnelNonce }
  if keyIs key "r" then
    return (← AlignedBuffer.bDecode).map fun rxid => { r with rxid }
  if keyIs key "t" then
    return (← AlignedBuffer.bDecode).map fun txid => { r with txid }
  if keyIs key "u" then
    return (← RouterContact.fresh.bDecode inet srvValid decodeVersion1).map
      fun rc => { r with nextRC := some rc }
  if keyIs key "v" then
    return (← bencodeReadInteger).bind fun version =>
      if version = llarpProtoVersion then some { r with version } else none
  if keyIs key "w" then
    if r.work.isSome then return none
    return (← bencodeDecodeDict PoW.decodeKey PoW.create).map fun w => { r with work := some w }
  return none

/-- `BDecode`: every key goes to `OnKey`, whose call with no key after the closing `e`
succeeds. -/
def bDecode (r : LRCommitRecord) : BufferM (Option LRCommitRecord) :=
  bencodeDecodeDict (onKey inet srvValid decodeVersion1) r

/-- `operator==`: the proofs of work count only when both records carry one; the tunnel nonce,
the contact, the version and the lifetime do not count. -/
def eq (r other : LRCommitRecord) : Bool :=
  (match r.work, other.work with
    | some w, some w' => w == w'
    | _, _ => true) &&
  (r.nextHop == other.nextHop && r.commkey == other.commkey && r.txid == other.txid &&
    r.rxid == other.rxid)

end LRCommitRecord

end Lokinet.Messages
