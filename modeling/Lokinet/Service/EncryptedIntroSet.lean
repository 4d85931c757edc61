import Lokinet.Service.IntroSet
import Lokinet.Messages.RelayCommit

/-!
`EncryptedIntroSet` (llarp/service/intro_set.cpp), `Identity::EncryptAndSignIntroSet`
(identity.cpp) and `HiddenServiceAddressLookup::HandleIntrosetResponse`
(hidden_service_address_lookup.cpp). The nonce `Randomize` draws and both clock readings are
arguments, the signature primitives a parameter (`SignCrypto`); scratch buffers are zeroed.
-/

namespace Lokinet.Service

open Lokinet.Util Lokinet.Net Lokinet.Path FaultState

/-- `MAX_INTROSET_SIZE`. -/
def maxIntrosetSize : Nat := 4096

/-- `MAX_INTROSET_TIME_DELTA`, in milliseconds. -/
def maxIntrosetTimeDelta : Nat := 10000

/-- `PQ_SECRETKEYSIZE`, the secret key size of the sntrup4591761 KEM. -/
def pqSecretkeySize : Nat := 1600

/-- `PQKeyPair`: the secret key, then the public key. -/
abbrev PQKeyPair := AlignedBuffer (pqSecretkeySize + pqPubkeySize)

/-- `pq_keypair_to_public`: the bytes after the secret key. -/
def pqKeypairToPublic (k : PQKeyPair) : AlignedBuffer pqPubkeySize :=
  ⟨k.bytes.drop pqSecretkeySize, by simp [k.length_eq]⟩

/-- `ServiceInfo::Addr()`: what `CalculateAddress` gives, the signing key. The model keeps no
cache; `UpdateAddr` fills it from the same key. -/
def ServiceInfo.addr (si : ServiceInfo) : PubKey := si.signkey

/-- `PrivateKey`, the service's derived signing key. -/
abbrev PrivateKey := AlignedBuffer 64

abbrev Signature := AlignedBuffer 64

/-- `PrivateKey::toPublic`, `CryptoManager::sign` and `CryptoManager::verify`; `none` is the
`false` the first two return on failure. -/
structure SignCrypto where
  toPublic : PrivateKey → Option PubKey
  sign : PrivateKey → List UInt8 → Option Signature
  verify : PubKey → List UInt8 → Signature → Bool

/-- What signing relies on: a signature made with a key verifies under that key's public key. -/
structure SignCrypto.Ideal (c : SignCrypto) : Prop where
  verify_sign : ∀ k pk m s, c.toPublic k = some pk → c.sign k m = some s → c.verify pk m s = true

/-- `EncryptedIntroSet`. `signedAt` is the `llarp_time_t` count of milliseconds; `topic` is
neither written nor read by the codec and is left out. -/
structure EncryptedIntroSet where
  derivedSigningKey : PubKey
  signedAt : Int
  introsetPayload : List UInt8
  nounce : TunnelNonce
  sig : Signature
  deriving DecidableEq

namespace EncryptedIntroSet

/-- `EncryptedIntroSet()`: zero keys, nonce and signature, signed at 0, no payload. -/
def empty : EncryptedIntroSet :=
  ⟨AlignedBuffer.zero 32, 0, [], AlignedBuffer.zero 32, AlignedBuffer.zero 64⟩

/-- `BEncode`; `bencode_write_uint64` takes the bits of the signed count. -/
def bEncode (e : EncryptedIntroSet) : BufferM Bool :=
  writeSeq [bencodeStartDict, bencodeWriteBytestring (ascii "d"), e.derivedSigningKey.bEncode,
    bencodeWriteBytestring (ascii "n"), e.nounce.bEncode,
    bencodeWriteUint64Entry (ascii "s") (UInt64.ofInt e.signedAt),
    bencodeWriteBytestring (ascii "x"), bencodeWriteBytestring e.introsetPayload,
    bencodeWriteBytestring (ascii "z"), e.sig.bEncode, bencodeEnd]

/-- `DecodeKey`. A payload longer than `MAX_INTROSET_SIZE` is refused, and so is a key none of
the tests take, for which `read` stays false. -/
def decodeKey (e : EncryptedIntroSet) (key : List UInt8) : BufferM (Option EncryptedIntroSet) := do
  if keyIs key "x" then
    match ← bencodeReadString with
    | none => return none
    | some s => return if maxIntrosetSize < s.length then none else some { e with introsetPayload := s }
  if keyIs key "d" then
    return (← AlignedBuffer.bDecode).map fun derivedSigningKey => { e with derivedSigningKey }
  if keyIs key "n" then return (← AlignedBuffer.bDecode).map fun nounce => { e with nounce }
  if keyIs key "s" then
    return (← bencodeReadInteger).map fun s => { e with signedAt := Messages.timeOfUint64 s }
  if keyIs key "z" then return (← AlignedBuffer.bDecode).map fun sig => { e with sig }
  return none

def bDecode (e : EncryptedIntroSet) : BufferM (Option EncryptedIntroSet) := bencodeDecodeDict decodeKey e

/-- `OtherIsNewer`. -/
def otherIsNewer (e other : EncryptedIntroSet) : Bool := decide (e.signedAt < other.signedAt)

/-- `IsExpired`: past `path::default_lifetime` after the signing time. -/
def isExpired (e : EncryptedIntroSet) (now : Int) : Bool :=
  decide (e.signedAt + (defaultLifetime : Int) ≤ now)

/-- `Sign`, with `time_now_ms()` as `clock`: the time and the public key of `k` are set, and the
signature is made over the record written with a zero signature to a buffer of
`MAX_INTROSET_SIZE + 128` bytes, cut at the cursor. `some none` is the `false` of a failed step;
the only caller then drops the record. -/
def sign (c : SignCrypto) (k : PrivateKey) (clock : Int) (e : EncryptedIntroSet) :
    Option (Option EncryptedIntroSet) :=
  match c.toPublic k with
  | none => some none
  | some derivedSigningKey => do
    let e := { e with signedAt := clock, derivedSigningKey, sig := AlignedBuffer.zero 64 }
    let (ok, buf) ← e.bEncode (LlarpBuffer.ofBytes (List.replicate (maxIntrosetSize + 128) 0))
    if ok then return (c.sign k (buf.mem.take buf.cur)).map fun sig => { e with sig }
    else return none

/-- `Verify`: not expired at `now`, and the signature checks under `derivedSigningKey` against
the record written with a zero signature to a buffer of `MAX_INTROSET_SIZE + 128` bytes. -/
def verify (c : SignCrypto) (now : Int) (e : EncryptedIntroSet) : Option Bool :=
  if e.isExpired now then some false else do
    let copy := { e with sig := AlignedBuffer.zero 64 }
    let (ok, buf) ← copy.bEncode (LlarpBuffer.ofBytes (List.replicate (maxIntrosetSize + 128) 0))
    return ok && c.verify e.derivedSigningKey (buf.mem.take buf.cur) e.sig

variable (inet : Inet6) (inet4 : Inet4) (bt : BtString) (srv : SrvCodec)

/-- `MaybeDecrypt`: the payload under the stream cipher with `root` as the key and the record's
nonce, decoded into a fresh `IntroSet`. -/
def maybeDecrypt (xc : Crypto) (root : PubKey) (e : EncryptedIntroSet) : Option (Option IntroSet) :=
  (IntroSet.empty.bDecode inet inet4 bt srv
    (LlarpBuffer.ofBytes (xc.xchacha20 e.introsetPayload root e.nounce))).map Prod.fst

end EncryptedIntroSet

/-- The keys of `Identity` that `EncryptAndSignIntroSet` reads. -/
structure Identity where
  pub : ServiceInfo
  pq : PQKeyPair
  derivedSignKey : PrivateKey

namespace Identity

/-- The copy of the descriptor `EncryptAndSignIntroSet` writes: stamped with the time, the
service's public keys and its post-quantum public key. -/
def stampIntroSet (id : Identity) (otherI : IntroSet) (now : Int) : IntroSet :=
  { otherI with timestampSignedAt := UInt64.ofInt now, addressKeys := id.pub,
                sntrupKey := pqKeypairToPublic id.pq }

variable (inet : Inet6) (inet4 : Inet4) (bt : BtString) (srv : SrvCodec)

/-- `EncryptAndSignIntroSet`, with the nonce `Randomize` draws as `nounce` and the clock of
`Sign` as `clock`. A descriptor without introductions is refused; the stamped copy is written
to a buffer of `MAX_INTROSET_SIZE` bytes, the bytes written are encrypted under the service's
address, and the record that carries them is signed with the derived key. -/
def encryptAndSignIntroSet (xc : Crypto) (sc : SignCrypto) (id : Identity) (otherI : IntroSet)
    (nounce : TunnelNonce) (now clock : Int) : Option (Option EncryptedIntroSet) :=
  if otherI.intros.isEmpty then some none else do
    let i := id.stampIntroSet otherI now
    let (ok, buf) ← i.bEncode inet inet4 bt srv (LlarpBuffer.ofBytes (List.replicate maxIntrosetSize 0))
    if ok then
      let introsetPayload := xc.xchacha20 (buf.mem.take buf.cur) i.addressKeys.addr nounce
      { EncryptedIntroSet.empty with signedAt := now, introsetPayload, nounce }.sign sc
        id.derivedSignKey clock
    else return none

end Identity

namespace HiddenServiceAddressLookup

/-- The loop of `HandleIntrosetResponse` over the records of the answer, in the order of the
set: from a default record, a record replaces the one kept when it is newer. -/
def selectNewest (results : List EncryptedIntroSet) : EncryptedIntroSet :=
  results.foldl (fun selected r => if selected.otherIsNewer r then r else selected)
    EncryptedIntroSet.empty

variable (inet : Inet6) (inet4 : Inet4) (bt : BtString) (srv : SrvCodec)

/-- `HandleIntrosetResponse`: the descriptor it hands on, the record kept decrypted with the
address looked up, `rootkey`. -/
def handleIntrosetResponse (xc : Crypto) (rootkey : PubKey) (results : List EncryptedIntroSet) :
    Option (Option IntroSet) :=
  if results.isEmpty then some none
  else (selectNewest results).maybeDecrypt inet inet4 bt srv xc rootkey

end HiddenServiceAddressLookup

end Lokinet.Service
