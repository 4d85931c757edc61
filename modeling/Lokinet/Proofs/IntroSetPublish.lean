import Lokinet.Service.EncryptedIntroSet
import Lokinet.Proofs.IntroSetCodec

/-!
A hidden service's descriptor on its way to a client: `EncryptAndSignIntroSet`, the
`EncryptedIntroSet` codec on the DHT, `Verify`, and `HandleIntrosetResponse`.
-/

namespace Lokinet.Proofs.Service

open Lokinet.Util Lokinet.Net Lokinet.Path Lokinet.Service Lokinet.Proofs.Bencode FaultState
  LlarpBuffer

/-- `static_cast<llarp_time_t>` gives back a count whose bits `bencode_write_uint64` took. -/
theorem timeOfUint64_ofInt {t : Int} (h0 : -2 ^ 63 ≤ t) (h1 : t < 2 ^ 63) :
    Messages.timeOfUint64 (UInt64.ofInt t) = t := by
  have hbv : (UInt64.ofInt t).toBitVec = BitVec.ofInt 64 t := by
    apply BitVec.eq_of_toNat_eq
    simp only [UInt64.ofInt, UInt64.toNat_toBitVec, UInt64.toNat_ofNat', BitVec.toNat_ofInt]
    omega
  change (UInt64.ofInt t).toBitVec.toInt = t
  rw [hbv, BitVec.toInt_ofInt]
  exact Int.bmod_eq_of_le (by omega) (by omega)

/-! ### The record on the wire -/

namespace EncryptedIntroSet

/-- The entries of the dict `EncryptedIntroSet::BEncode` writes. -/
inductive Entry where
  | derivedSigningKey (k : PubKey)
  | nounce (n : TunnelNonce)
  | signedAt (t : Int)
  | introsetPayload (p : List UInt8)
  | sig (s : Signature)

namespace Entry

def key : Entry → List UInt8
  | derivedSigningKey _ => ascii "d"
  | nounce _ => ascii "n"
  | signedAt _ => ascii "s"
  | introsetPayload _ => ascii "x"
  | sig _ => ascii "z"

def enc : Entry → List UInt8
  | derivedSigningKey k => bytestringEnc k.bytes
  | nounce n => bytestringEnc n.bytes
  | signedAt t => integerEnc (UInt64.ofInt t)
  | introsetPayload p => bytestringEnc p
  | sig s => bytestringEnc s.bytes

def writers : Entry → List (BufferM Bool)
  | derivedSigningKey k => [bencodeWriteBytestring (ascii "d"), k.bEncode]
  | nounce n => [bencodeWriteBytestring (ascii "n"), n.bEncode]
  | signedAt t => [bencodeWriteUint64Entry (ascii "s") (UInt64.ofInt t)]
  | introsetPayload p => [bencodeWriteBytestring (ascii "x"), bencodeWriteBytestring p]
  | sig s => [bencodeWriteBytestring (ascii "z"), s.bEncode]

theorem puts_writers (x : Entry) : Puts (writeSeq x.writers) (entryEnc key enc x) := by
  cases x with
  | derivedSigningKey k => exact Puts.pair (puts_bencodeWriteBytestring _) _
  | nounce n => exact Puts.pair (puts_bencodeWriteBytestring _) _
  | signedAt t => exact Puts.singleton (puts_bencodeWriteUint64Entry _ _)
  | introsetPayload p => exact Puts.pair (puts_bencodeWriteBytestring _) _
  | sig s => exact Puts.pair (puts_bencodeWriteBytestring _) _

theorem emits_writers (x : Entry) : Emits (writeSeq x.writers) (entryEnc key enc x) := by
  cases x with
  | derivedSigningKey k => exact Emits.pair (emits_bencodeWriteBytestring _) _
  | nounce n => exact Emits.pair (emits_bencodeWriteBytestring _) _
  | signedAt t => exact Emits.singleton (emits_bencodeWriteUint64Entry _ _)
  | introsetPayload p => exact Emits.pair (emits_bencodeWriteBytestring _) _
  | sig s => exact Emits.pair (emits_bencodeWriteBytestring _) _

/-- What `DecodeKey` makes of an entry. -/
def step (e : EncryptedIntroSet) : Entry → EncryptedIntroSet
  | derivedSigningKey k => { e with derivedSigningKey := k }
  | nounce n => { e with nounce := n }
  | signedAt t => { e with signedAt := t }
  | introsetPayload p => { e with introsetPayload := p }
  | sig s => { e with sig := s }

/-- An entry `DecodeKey` takes back: a time within the signed count, a payload within
`MAX_INTROSET_SIZE`. -/
def Valid : Entry → Prop
  | signedAt t => -2 ^ 63 ≤ t ∧ t < 2 ^ 63
  | introsetPayload p => p.length ≤ maxIntrosetSize
  | _ => True

theorem length_key (x : Entry) : x.key.length = 1 := by
  cases x <;> rfl

/-- `EncryptedIntroSet::DecodeKey` reads each valid entry `BEncode` writes, into any record. -/
theorem readsEntry (x : Entry) (hx : x.Valid) :
    ReadsEntry EncryptedIntroSet.decodeKey key enc step x := by
  refine ⟨by rw [length_key]; decide, fun acc b rest h => ?_⟩
  cases x with
  | derivedSigningKey k =>
    simp +decide only [EncryptedIntroSet.decodeKey, key, ↓reduceIte]
    simp [bind_of_some (Router.AlignedBuffer.bDecode_of_drop (by decide) h), step, enc]
  | nounce n =>
    simp +decide only [EncryptedIntroSet.decodeKey, key, ↓reduceIte]
    simp [bind_of_some (Router.AlignedBuffer.bDecode_of_drop (by decide) h), step, enc]
  | signedAt t =>
    simp +decide only [EncryptedIntroSet.decodeKey, key, ↓reduceIte]
    simp [bind_of_some (bencodeReadInteger_of_drop h), step, enc, timeOfUint64_ofInt hx.1 hx.2]
  | introsetPayload p =>
    -- the length test of the payload passes
    have hp : ¬ maxIntrosetSize < p.length := Nat.not_lt.mpr hx
    have hread := bencodeReadString_of_drop (lt_of_le_of_lt hx (by decide)) h
    simp +decide only [EncryptedIntroSet.decodeKey, key, ↓reduceIte]
    simp [bind_of_some hread, hp, step, enc]
  | sig s =>
    simp +decide only [EncryptedIntroSet.decodeKey, key, ↓reduceIte]
    simp [bind_of_some (Router.AlignedBuffer.bDecode_of_drop (by decide) h), step, enc]

end Entry

/-- The entries written, in `BEncode`'s order. -/
def entries (e : EncryptedIntroSet) : List Entry :=
  [Entry.derivedSigningKey e.derivedSigningKey, Entry.nounce e.nounce, Entry.signedAt e.signedAt,
    Entry.introsetPayload e.introsetPayload, Entry.sig e.sig]

def enc (e : EncryptedIntroSet) : List UInt8 :=
  100 :: (((entries e).map (entryEnc Entry.key Entry.enc)).flatten ++ [101])

theorem bEncode_eq (e : EncryptedIntroSet) :
    e.bEncode = writeSeq (bencodeStartDict :: ((entries e).flatMap Entry.writers ++ [bencodeEnd])) := by
  simp [EncryptedIntroSet.bEncode, entries, Entry.writers]

theorem puts_bEncode (e : EncryptedIntroSet) : Puts e.bEncode (enc e) := by
  rw [bEncode_eq]
  exact Puts.container 100 (Puts.flatMap fun x _ => Entry.puts_writers x)

theorem clean_bEncode (e : EncryptedIntroSet) : Clean e.bEncode (enc e) := by
  rw [bEncode_eq]
  exact BValue.clean_container (Emits.flatMap fun x _ => Entry.emits_writers x)

/-- What a record must be for `BDecode` to read back what `BEncode` wrote. -/
structure ReadsBack (e : EncryptedIntroSet) : Prop where
  signedAt_ge : -2 ^ 63 ≤ e.signedAt
  signedAt_lt : e.signedAt < 2 ^ 63
  payload_le : e.introsetPayload.length ≤ maxIntrosetSize

theorem valid_entries {e : EncryptedIntroSet} (he : ReadsBack e) : ∀ x ∈ entries e, x.Valid := by
  intro x hx
  simp only [entries, List.mem_cons, List.not_mem_nil, or_false] at hx
  rcases hx with rfl | rfl | rfl | rfl | rfl
  · trivial
  · trivial
  · exact ⟨he.signedAt_ge, he.signedAt_lt⟩
  · exact he.payload_le
  · trivial

theorem foldl_step_entries (e e₀ : EncryptedIntroSet) : (entries e).foldl Entry.step e₀ = e := by
  simp [entries, Entry.step]

theorem bDecode_of_drop {e : EncryptedIntroSet} (he : ReadsBack e) (e₀ : EncryptedIntroSet)
    {b : LlarpBuffer} {rest : List UInt8} (h : b.mem.drop b.cur = enc e ++ rest) :
    e₀.bDecode b = some (some e, { b with cur := b.cur + (enc e).length }) := by
  have hd : b.mem.drop b.cur =
      100 :: (((entries e).map (entryEnc Entry.key Entry.enc)).flatten ++ 101 :: rest) := by
    simpa [enc] using h
  rw [EncryptedIntroSet.bDecode, bencodeDecodeDict,
    bencodeReadDict_of_drop (fun x hx => Entry.readsEntry x (valid_entries he x hx)) hd,
    foldl_step_entries]
  simp [enc, Nat.add_assoc]

/-- The length of a record's encoding: 157 bytes for the keys, the key, the nonce and the
signature, the digits of the time and of the payload's length, and the payload. -/
theorem length_enc (e : EncryptedIntroSet) :
    (enc e).length = 157 + (Decimal.decimal (UInt64.ofInt e.signedAt).toNat).length +
      (Decimal.decimal e.introsetPayload.length).length + e.introsetPayload.length := by
  have hkey : ∀ x : Entry, (bytestringEnc x.key).length = 3 := by
    intro x
    simp only [bytestringEnc, Entry.length_key, List.length_append, List.length_cons]
    rfl
  simp only [enc, entries, List.map_cons, List.map_nil, List.flatten_cons, List.flatten_nil,
    entryEnc, List.length_cons, List.length_append, hkey, List.length_nil]
  simp only [Entry.enc, bytestringEnc, integerEnc, List.length_append, List.length_cons,
    AlignedBuffer.length_eq, List.length_nil]
  have h32 : (Decimal.decimal 32).length = 2 := rfl
  have h64 : (Decimal.decimal 64).length = 2 := rfl
  omega

/-- A record `BEncode` wrote, `BDecode` reads back from where the writing began, into a fresh
record, and stops where the writing ended. -/
theorem bDecode_eq_of_bEncode {e : EncryptedIntroSet} (he : ReadsBack e) {b b' : LlarpBuffer}
    (henc : e.bEncode b = some (true, b')) :
    EncryptedIntroSet.empty.bDecode ⟨b'.mem, b.cur⟩ = some (some e, b') := by
  have hw : Wrote b b' (enc e) := clean_bEncode e b b' henc
  rw [bDecode_of_drop he _ hw.drop_cur]
  obtain ⟨-, hc, -⟩ := hw
  rw [← hc]

variable {sc : SignCrypto}

/-- What `Sign` did when it kept the record: it set the time and the key's public key, and signed
the record as written with a zero signature. -/
theorem sign_eq_some {k : PrivateKey} {clock : Int} {e e' : EncryptedIntroSet}
    (h : e.sign sc k clock = some (some e')) :
    ∃ pk buf, sc.toPublic k = some pk ∧
      e' = { e with signedAt := clock, derivedSigningKey := pk, sig := e'.sig } ∧
      { e' with sig := AlignedBuffer.zero 64 }.bEncode
          (ofBytes (List.replicate (maxIntrosetSize + 128) 0)) = some (true, buf) ∧
      sc.sign k (buf.mem.take buf.cur) = some e'.sig := by
  unfold EncryptedIntroSet.sign at h
  split at h
  · cases h
  · rename_i pk hpk
    simp only [bind, Option.bind_eq_some_iff] at h
    obtain ⟨⟨ok, buf⟩, henc, h⟩ := h
    cases ok with
    | false => cases h
    | true =>
      simp only [if_true, pure, Option.some.injEq, Option.map_eq_some_iff] at h
      obtain ⟨s, hs, rfl⟩ := h
      exact ⟨pk, buf, hpk, rfl, henc, hs⟩

/-- What `Sign` keeps, `Verify` accepts until it expires. -/
theorem verify_of_sign (hsc : sc.Ideal) {k : PrivateKey} {clock now : Int} {e e' : EncryptedIntroSet}
    (h : e.sign sc k clock = some (some e')) (hnow : now < clock + defaultLifetime) :
    e'.verify sc now = some true := by
  obtain ⟨pk, buf, hpk, he', henc, hs⟩ := sign_eq_some h
  have hexp : e'.isExpired now = false := by
    rw [he']
    simp [EncryptedIntroSet.isExpired]
    omega
  have hkey : e'.derivedSigningKey = pk := by rw [he']
  unfold EncryptedIntroSet.verify
  simp only [hexp, Bool.false_eq_true, ↓reduceIte, bind, henc, Option.bind_some, pure,
    Bool.true_and, Option.some.injEq]
  rw [hkey]
  exact hsc.verify_sign k pk _ _ hpk hs

end EncryptedIntroSet

/-! ### From the service to the client -/

namespace Identity

variable {inet : Inet6} {inet4 : Inet4} {bt : BtString} {srv : SrvCodec} {xc : Crypto}
  {sc : SignCrypto} {id : Identity} {otherI : IntroSet} {nounce : TunnelNonce} {now clock : Int}

/-- What `EncryptAndSignIntroSet` did when it returned a record: it wrote the stamped descriptor,
and signed the record carrying those bytes encrypted under the service's address. -/
theorem encryptAndSignIntroSet_eq_some {e : EncryptedIntroSet}
    (h : id.encryptAndSignIntroSet inet inet4 bt srv xc sc otherI nounce now clock = some (some e)) :
    ∃ buf, (id.stampIntroSet otherI now).bEncode inet inet4 bt srv
        (ofBytes (List.replicate maxIntrosetSize 0)) = some (true, buf) ∧
      EncryptedIntroSet.sign sc id.derivedSignKey clock { EncryptedIntroSet.empty with
        signedAt := now, introsetPayload := xc.xchacha20 (buf.mem.take buf.cur) id.pub.addr nounce,
        nounce := nounce } = some (some e) := by
  unfold Identity.encryptAndSignIntroSet at h
  split_ifs at h
  · cases h
  · dsimp only at h
    simp only [bind, Option.bind_eq_some_iff] at h
    obtain ⟨⟨ok, buf⟩, henc, h⟩ := h
    cases ok with
    | false => cases h
    | true => exact ⟨buf, henc, h⟩

/-- `EncryptAndSignIntroSet` returns a record for a descriptor with introductions whose encoding
leaves room for the record's keys in `Sign`'s buffer, when the derived key has a public key and
signs. -/
theorem encryptAndSignIntroSet_isSome (hne : otherI.intros ≠ [])
    (hroom : (IntroSet.enc inet inet4 bt srv (id.stampIntroSet otherI now)).length + 181 <
      maxIntrosetSize + 128)
    {pk : PubKey} (hpub : sc.toPublic id.derivedSignKey = some pk)
    (hsign : ∀ m, (sc.sign id.derivedSignKey m).isSome) :
    ∃ e, id.encryptAndSignIntroSet inet inet4 bt srv xc sc otherI nounce now clock = some (some e) := by
  have hroom' : (IntroSet.enc inet inet4 bt srv (id.stampIntroSet otherI now)).length <
      (ofBytes (List.replicate maxIntrosetSize 0)).sizeLeft := by
    simp only [ofBytes, sizeLeft, List.length_replicate, Nat.sub_zero]
    simp only [maxIntrosetSize] at hroom ⊢
    omega
  obtain ⟨buf, henc, hw⟩ := (IntroSet.puts_bEncode inet inet4 bt srv _).wrote hroom'
  have hbytes : buf.mem.take buf.cur = IntroSet.enc inet inet4 bt srv (id.stampIntroSet otherI now) := by
    rw [hw.2.2]
    simp [ofBytes]
  -- the record `Sign` writes, with the payload and a zero signature, fits in its buffer
  let r : EncryptedIntroSet := ⟨pk, clock, xc.xchacha20 (buf.mem.take buf.cur) id.pub.addr nounce,
    nounce, AlignedBuffer.zero 64⟩
  have hfit : (EncryptedIntroSet.enc r).length <
      (ofBytes (List.replicate (maxIntrosetSize + 128) 0)).sizeLeft := by
    have hp : r.introsetPayload.length = (IntroSet.enc inet inet4 bt srv (id.stampIntroSet otherI now)).length := by
      simp [r, Crypto.xchacha20, hbytes]
    have hd := Decimal.length_decimal_le (k := 4) (n := r.introsetPayload.length) (by decide)
      (by simp only [maxIntrosetSize] at hroom; omega)
    have ht := length_decimal_uint64 (UInt64.ofInt r.signedAt)
    rw [EncryptedIntroSet.length_enc]
    simp only [ofBytes, sizeLeft, List.length_replicate, Nat.sub_zero]
    omega
  obtain ⟨buf', henc', -⟩ := (EncryptedIntroSet.puts_bEncode r).wrote hfit
  obtain ⟨s, hs⟩ := Option.isSome_iff_exists.mp (hsign (buf'.mem.take buf'.cur))
  refine ⟨{ r with sig := s }, ?_⟩
  unfold Identity.encryptAndSignIntroSet
  rw [if_neg (by simpa using hne)]
  dsimp only
  simp only [bind, henc, Option.bind_some, if_true]
  unfold EncryptedIntroSet.sign
  have hkeys : (id.stampIntroSet otherI now).addressKeys = id.pub := rfl
  rw [hpub, hkeys]
  dsimp only
  rw [henc']
  simp [hs, r]

end Identity

section Sample

open Lokinet.Proofs.Net (dottedInet4 noSrvs bencodedStrings bencodedStrings_lawful lawful_btReads)
open Lokinet.Proofs.Router.RouterContact (letterInet)
open Lokinet.Proofs.Service.IntroSet (oneRangeIntroSet)

/-- A stream cipher whose keystream mixes the key's and the nonce's bytes. -/
def mixedStream : Crypto := ⟨fun k n i => k.bytes.getD (i % 32) 0 ^^^ n.bytes.getD (i % 32) 0⟩

/-- Signatures that are the signing key itself, checked against its public half, the first 32
bytes. -/
def keySignatures : SignCrypto where
  toPublic k := some ⟨k.bytes.take 32, by simp [k.length_eq]⟩
  sign k _ := some k
  verify pk _ s := decide (s.bytes.take 32 = pk.bytes)

theorem keySignatures_ideal : keySignatures.Ideal where
  verify_sign k pk m s hpk hs := by
    simp only [keySignatures, Option.some.injEq] at hpk hs
    subst hpk hs
    simp [keySignatures]

/-- A service with empty keys. -/
def sampleIdentity : Identity := ⟨ServiceInfo.empty, AlignedBuffer.zero _, AlignedBuffer.zero 64⟩

end Sample

end Lokinet.Proofs.Service
