import Lokinet.Messages.RelayCommit

set_option linter.dupNamespace false

/-!
The path build handshake (llarp/path/pathbuilder.cpp, messages/relay_commit.cpp,
messages/relay_status.cpp, crypto/encrypted_frame.cpp, path/path.cpp). A frame is its bytes: a
keyed hash, a nonce and a public key, then the body the records are written to. The key exchange
and the frame ciphers are a parameter (`BuildCrypto`); the records go through their own codecs.
What the code draws at random and how each router answers are arguments; messages pass between
routers as values, and the hop's lifetime is left out.
-/

namespace Lokinet.Path

open Lokinet.Util Lokinet.Net Lokinet.Router Lokinet.Messages

/-- `path::max_len`: the frames of a build message. -/
def maxLen : Nat := 8

/-- `LR_StatusRecord::SUCCESS` and the failure bits the client tests. -/
def statusSuccess : UInt64 := (1 : UInt64) <<< 0

def failCongestion : UInt64 := (1 : UInt64) <<< 2

def failDecryptError : UInt64 := (1 : UInt64) <<< 4

def failMalformedRecord : UInt64 := (1 : UInt64) <<< 5

/-- `EncryptedFrameOverheadSize`: the keyed hash, the nonce and the public key before a frame's
body. -/
def encryptedFrameOverheadSize : Nat := 32 + 32 + 32

/-- `EncryptedFrameSize`: the overhead and a body of `EncryptedFrameBodySize` bytes. -/
def encryptedFrameSize : Nat := encryptedFrameOverheadSize + 128 * 6

theorem encryptedFrameBodySize_eq : encryptedFrameSize - encryptedFrameOverheadSize = 768 := rfl

/-- `EncryptedFrame()`: a frame of the full size, zeroed. -/
def defaultFrame : List UInt8 := List.replicate encryptedFrameSize 0

/-- `LR_StatusRecord`. -/
structure LRStatusRecord where
  status : UInt64
  version : UInt64

namespace LRStatusRecord

/-- `LR_StatusRecord()`: status and version zero. -/
def create : LRStatusRecord := ⟨0, 0⟩

/-- `BEncode`: the status under `s`, then `LLARP_PROTO_VERSION` under `v`. -/
def bEncode (r : LRStatusRecord) : BufferM Bool :=
  writeSeq [bencodeStartDict, bencodeWriteBytestring (ascii "s"), bencodeWriteUint64 r.status,
    bencodeWriteUint64Entry (ascii "v") llarpProtoVersion, bencodeEnd]

/-- `OnKey`. A key neither test takes leaves `read` false and stops the read, and so does a
version other than `LLARP_PROTO_VERSION`. -/
def onKey (r : LRStatusRecord) (key : List UInt8) : BufferM (Option LRStatusRecord) := do
  if keyIs key "s" then return (← bencodeReadInteger).map fun status => { r with status }
  if keyIs key "v" then
    return (← bencodeReadInteger).bind fun version =>
      if version = llarpProtoVersion then some { r with version } else none
  return none

/-- `BDecode`: every key goes to `OnKey`, whose call with no key after the closing `e`
succeeds. -/
def bDecode (r : LRStatusRecord) : BufferM (Option LRStatusRecord) := bencodeDecodeDict onKey r

end LRStatusRecord

/-- The cryptography of a build. `dhClient` and `dhServer` are `dh_client` and `dh_server`, `none`
when they fail. The frame routines work in place on a frame's bytes and say whether they
succeeded: `EncryptInPlace` with a frame key to a router's key, `DecryptInPlace` with the router's
secret key, and `DoEncrypt` and `DoDecrypt` with a path key. The nonces and keys the frame
routines draw are theirs. -/
structure BuildCrypto where
  seckeyToPublic : SecretKey → PubKey
  dhClient : PubKey → SecretKey → TunnelNonce → Option SharedSecret
  dhServer : PubKey → SecretKey → TunnelNonce → Option SharedSecret
  shorthash : SharedSecret → ShortHash
  encryptInPlace : SecretKey → PubKey → List UInt8 → Bool × List UInt8
  decryptInPlace : SecretKey → List UInt8 → Bool × List UInt8
  doEncrypt : SharedSecret → List UInt8 → Bool × List UInt8
  doDecrypt : SharedSecret → List UInt8 → Bool × List UInt8

/-- `decrypt` opens what `encrypt` made, and gives back the body `encrypt` was given: the bytes
after the overhead. -/
def Decrypts (encrypt decrypt : List UInt8 → Bool × List UInt8) : Prop :=
  ∀ frame, (encrypt frame).1 = true ∧ (decrypt (encrypt frame).2).1 = true ∧
    (decrypt (encrypt frame).2).2.drop encryptedFrameOverheadSize =
      frame.drop encryptedFrameOverheadSize

/-- What a build relies on of its cryptography: both ends of the key exchange get the same key,
and a frame sealed to a key opens under it with its body intact. -/
structure BuildCrypto.Ideal (bc : BuildCrypto) : Prop where
  dh_agree : ∀ commkey esk nonce, ∃ k, bc.dhClient (bc.seckeyToPublic esk) commkey nonce = some k ∧
    bc.dhServer (bc.seckeyToPublic commkey) esk nonce = some k
  decrypts_commit : ∀ framekey esk,
    Decrypts (bc.encryptInPlace framekey (bc.seckeyToPublic esk)) (bc.decryptInPlace esk)
  decrypts_status : ∀ k, Decrypts (bc.doEncrypt k) (bc.doDecrypt k)

/-- A hop as `Path::Path` leaves it: its contact and its ids, the rest default-constructed. -/
def PathHopConfig.ofRC (rc : RouterContact) (txID rxID : PathID) : PathHopConfig :=
  ⟨txID, rxID, rc, AlignedBuffer.zero 64, AlignedBuffer.zero 32, AlignedBuffer.zero 32,
    AlignedBuffer.zero 32, AlignedBuffer.zero 32, defaultLifetime⟩

/-- The loop of `Path::Path` that gives each hop the next hop's `rxID` as its `txID`. -/
def chainIDs : List PathHopConfig → List PathHopConfig
  | h :: h' :: hs => { h with txID := h'.rxID } :: chainIDs (h' :: hs)
  | hs => hs

namespace Path

/-- `Path::Path`, with the ids its loops draw (they redraw a zero one). -/
def create (rcs : List RouterContact) (ids : List (PathID × PathID)) : Path :=
  ⟨chainIDs ((rcs.zip ids).map fun e => PathHopConfig.ofRC e.1 e.2.1 e.2.2)⟩

end Path

variable (bc : BuildCrypto) (inet : Inet6) (srvValid : SRVRecord → Bool)
  (decodeVersion1 : RouterContact → BufferM (Option RouterContact))

/-- The record `GenerateNextKey` writes for a hop it keyed, with the next hop's contact when there
is a next hop. -/
def commitRecord (hop : PathHopConfig) (nextRC : Option RouterContact) : LRCommitRecord :=
  { LRCommitRecord.create with
    nextRC := nextRC, lifetime := defaultLifetime, version := llarpProtoVersion,
    txid := hop.txID, rxid := hop.rxID, tunnelNonce := hop.nonce, nextHop := hop.upstream,
    commkey := bc.seckeyToPublic hop.commkey }

/-- A hop as `GenerateNextKey` keys it: the key and nonce it drew, the key it shares with the hop's
router and the mask hashed from that key, and the next hop's router, its own for the farthest
hop. -/
def keyHop (hop : PathHopConfig) (next : Option PathHopConfig) (commkey : SecretKey)
    (nonce : TunnelNonce) (shared : SharedSecret) : PathHopConfig :=
  { hop with commkey := commkey, nonce := nonce, shared := shared, nonceXOR := bc.shorthash shared,
             upstream := (next.map fun next => next.rc.pubkey).getD hop.rc.pubkey }

/-- `GenerateNextKey` for one hop, with the key, nonce and frame key it draws, the hop after it and
the hop's frame as `AsyncGenerateKeys` randomized it: the hop keyed, and its frame with the record
written after the overhead and sealed to the hop's router. `none` is one of its early returns,
after which the build never completes. -/
def generateNextKey (hop : PathHopConfig) (next : Option PathHopConfig) (commkey : SecretKey)
    (nonce : TunnelNonce) (framekey : SecretKey) (frame : List UInt8) :
    Option (PathHopConfig × List UInt8) := do
  let shared ← bc.dhClient hop.rc.enckey commkey nonce
  let hop := keyHop bc hop next commkey nonce shared
  match (commitRecord bc hop (next.map (·.rc))).bEncode inet ⟨frame, encryptedFrameOverheadSize⟩ with
  | some (true, buf) =>
    match bc.encryptInPlace framekey hop.rc.enckey buf.mem with
    | (true, frame) => return (hop, frame)
    | (false, _) => none
  | some (false, _) => none
  | none => none

/-- `GenerateNextKey` for each hop in turn, each on the frame of its index: the hops keyed and the
frames, those past the hops as they were. A hop past the frames of the message has no frame to
write to. -/
def generateKeys : List PathHopConfig → List (SecretKey × TunnelNonce × SecretKey) →
    List (List UInt8) → Option (List PathHopConfig × List (List UInt8))
  | [], _, frames => some ([], frames)
  | hop :: rest, (commkey, nonce, framekey) :: keys, frame :: frames => do
    let (hop, frame) ← generateNextKey bc inet hop rest.head? commkey nonce framekey frame
    let (hops, frames) ← generateKeys rest keys frames
    return (hop :: hops, frame :: frames)
  | _ :: _, _, _ => none

/-- `AsyncGenerateKeys`: the `path::max_len` frames randomized to `random`, then the hops' keys and
frames. -/
def asyncGenerateKeys (p : Path) (keys : List (SecretKey × TunnelNonce × SecretKey))
    (random : Nat → AlignedBuffer encryptedFrameSize) : Option (Path × List (List UInt8)) :=
  (generateKeys bc inet p.hops keys ((List.range maxLen).map fun i => (random i).bytes)).map
    fun r => (⟨r.1⟩, r.2)

/-- `LRCMFrameDecrypt::HandleDecrypted` at router `us`, holding `esk`, which got the frames from
`down`: the first frame opened, the record decoded from its body into a new record, the hop set up
from it, the frames shifted down with `random` last, and whether the router is the farthest hop.
`none` when the message is dropped. -/
def handleDecrypted (esk : SecretKey) (us down : RouterID) (frames : List (List UInt8))
    (random : List UInt8) : Option (LRCommitRecord × TransitHop × List (List UInt8) × Bool) :=
  match frames with
  | [] => none
  | frame :: rest =>
    match bc.decryptInPlace esk frame with
    | (false, _) => none
    | (true, plain) =>
      match LRCommitRecord.create.bDecode inet srvValid decodeVersion1
          ⟨plain, encryptedFrameOverheadSize⟩ with
      | some (some record, _) =>
        if record.txid = AlignedBuffer.zero 16 ∨ record.rxid = AlignedBuffer.zero 16 then none
        else
          (bc.dhServer record.commkey esk record.tunnelNonce).map fun pathKey =>
            (record, ⟨⟨record.txid, record.rxid, record.nextHop, down⟩, pathKey, bc.shorthash pathKey⟩,
              rest ++ [random], decide (record.nextHop = us))
      | some (none, _) => none
      | none => none

/-- The commit passed on from router to router. `secretOf` gives a router's encryption key;
`outcome i` is how the `i`-th router answers: `none` to forward the message (or, at the farthest
hop, to confirm), or the failure code it sends back; `random i` is the frame it appends. The
routers reached with the record each decoded and the hop each set up, and the status the last one
sends back; no status when the message is dropped. -/
def forwardLRCM (secretOf : RouterID → SecretKey) (outcome : Nat → Option UInt64)
    (random : Nat → AlignedBuffer encryptedFrameSize) :
    Nat → Nat → RouterID → RouterID → List (List UInt8) →
      List (RouterID × LRCommitRecord × TransitHop) × Option UInt64
  | 0, _, _, _, _ => ([], none)
  | fuel + 1, i, dest, down, frames =>
    match handleDecrypted bc inet srvValid decodeVersion1 (secretOf dest) dest down frames
        (random i).bytes with
    | none => ([], none)
    | some (record, hop, frames, farthest) =>
      if farthest then ([(dest, record, hop)], some ((outcome i).getD statusSuccess))
      else
        match outcome i with
        | some code => ([(dest, record, hop)], some code)
        | none =>
          let r := forwardLRCM secretOf outcome random fuel (i + 1) hop.info.upstream dest frames
          ((dest, record, hop) :: r.1, r.2)

/-- The frame `LR_StatusMessage::AddFrame` puts first: `pad`, as `Randomize` left it, with the
hop's status record written after its overhead and sealed with the path key. Its callers ignore
whether a step failed: the frame is then what is left of it (the writers check their room, and
never fault). -/
def statusFrame (pathKey : SharedSecret) (status : UInt64) (pad : List UInt8) : List UInt8 :=
  match (LRStatusRecord.mk status llarpProtoVersion).bEncode ⟨pad, encryptedFrameOverheadSize⟩ with
  | some (true, buf) => (bc.doEncrypt pathKey buf.mem).2
  | some (false, buf) => buf.mem
  | none => pad

/-- `LR_StatusMessage::AddFrame`: the frames move down one, the last dropped, and the hop's frame
goes first. -/
def addFrame (pathKey : SharedSecret) (status : UInt64) (pad : List UInt8) (frames : List (List UInt8)) :
    List (List UInt8) :=
  statusFrame bc pathKey status pad :: frames.take (maxLen - 1)

/-- The status message on its way down, over the routers' hops from the client's side: the
answering hop's frame added to the default frames (`CreateAndSend`), then a `SUCCESS` frame from
each hop below (`TransitHop::HandleLRSM`). The hop at index `i` randomizes its frame to `pad i`. -/
def statusFrames (status : UInt64) (pad : Nat → AlignedBuffer encryptedFrameSize) :
    Nat → List TransitHop → List (List UInt8)
  | _, [] => List.replicate maxLen defaultFrame
  | i, [hop] => addFrame bc hop.pathKey status (pad i).bytes (List.replicate maxLen defaultFrame)
  | i, hop :: hops => addFrame bc hop.pathKey statusSuccess (pad i).bytes (statusFrames status pad (i + 1) hops)

/-- The first steps of the body of `Path::HandleLRSM`'s loop: the hop's frame opened with its
shared key and its status record decoded after the overhead. The error is the status the loop
ends with (`FAIL_DECRYPT_ERROR`, `FAIL_MALFORMED_RECORD`), the value the record's status. -/
def openStatusFrame (key : SharedSecret) : Option (List UInt8) → Except UInt64 UInt64
  | none => .error failDecryptError
  | some frame =>
    match bc.doDecrypt key frame with
    | (false, _) => .error failDecryptError
    | (true, plain) =>
      match LRStatusRecord.create.bDecode ⟨plain, encryptedFrameOverheadSize⟩ with
      | some (some record, _) => .ok record.status
      | _ => .error failMalformedRecord

/-- The loop of `Path::HandleLRSM` from hop `index` on: the status it ends with and the router it
blames. -/
def handleLRSMLoop (frames : List (List UInt8)) :
    List PathHopConfig → Nat → UInt64 → UInt64 × Option RouterID
  | [], _, status => (status, none)
  | hop :: hops, index, _ =>
    match openStatusFrame bc hop.shared frames[index]? with
    | .error status => (status, some hop.rc.pubkey)
    | .ok status =>
      if status &&& statusSuccess ≠ statusSuccess then
        -- the first hop building too fast is blamed itself, any other failure on the next hop
        if status &&& failCongestion ≠ 0 ∧ index = 0 then (status, some hop.rc.pubkey)
        else (status, hops.head?.map fun next => next.rc.pubkey)
      else handleLRSMLoop frames hops (index + 1) status

namespace Path

/-- `Path::HandleLRSM`: whether the build succeeded, and the router it blames otherwise. -/
def handleLRSM (p : Path) (status : UInt64) (frames : List (List UInt8)) : Bool × Option RouterID :=
  let r := handleLRSMLoop bc frames p.hops 0 status
  (r.1 &&& statusSuccess = statusSuccess, r.2)

end Path

end Lokinet.Path
