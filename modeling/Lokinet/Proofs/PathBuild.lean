import Lokinet.Path.Build
import Lokinet.Proofs.RelayCommit

/-!
The path build handshake over honest routers (pathbuilder.cpp, relay_commit.cpp, relay_status.cpp,
path.cpp): what each router decodes and keys, what the client reports back, and the two
consecutive hops on one router that break it.
-/

namespace Lokinet.Path

open Lokinet.Util Lokinet.Net Lokinet.Router Lokinet.Messages Lokinet.Proofs.Bencode FaultState
  LlarpBuffer

/-- A hop's path ids are set, as `Path::Path` draws them. -/
def PathHopConfig.idsNonzero (h : PathHopConfig) : Prop :=
  h.txID ≠ AlignedBuffer.zero 16 ∧ h.rxID ≠ AlignedBuffer.zero 16

section Create

theorem length_chainIDs : ∀ hs : List PathHopConfig, (chainIDs hs).length = hs.length
  | [] => rfl
  | [_] => rfl
  | _ :: h' :: hs => by
    simp only [chainIDs, List.length_cons, length_chainIDs (h' :: hs)]

theorem map_rc_chainIDs : ∀ hs : List PathHopConfig, (chainIDs hs).map (·.rc) = hs.map (·.rc)
  | [] => rfl
  | [_] => rfl
  | h :: h' :: hs => by
    simp only [chainIDs, List.map_cons, map_rc_chainIDs (h' :: hs)]

/-- Each hop's `txID` is the next hop's `rxID`. -/
theorem chain_chainIDs : ∀ hs : List PathHopConfig, (chainIDs hs).IsChain fun a b => a.txID = b.rxID
  | [] => List.IsChain.nil
  | [_] => List.isChain_singleton _
  | h :: h' :: hs => by
    have ih := chain_chainIDs (h' :: hs)
    cases hs with
    | nil => exact List.IsChain.cons_cons rfl (List.isChain_singleton _)
    | cons h'' hs =>
      simp only [chainIDs] at ih ⊢
      exact List.IsChain.cons_cons rfl ih

theorem idsNonzero_chainIDs : ∀ hs : List PathHopConfig, (∀ h ∈ hs, h.idsNonzero) →
    ∀ h ∈ chainIDs hs, h.idsNonzero
  | [], _ => by simp [chainIDs]
  | [h], hnz => by simpa [chainIDs] using hnz
  | h :: h' :: hs, hnz => by
    intro g hg
    simp only [chainIDs, List.mem_cons] at hg
    rcases hg with rfl | hg
    · exact ⟨(hnz h' (by simp)).2, (hnz h (by simp)).2⟩
    · exact idsNonzero_chainIDs (h' :: hs) (fun g hg => hnz g (List.mem_cons_of_mem _ hg)) g hg

theorem map_rc_create (rcs : List RouterContact) (ids : List (PathID × PathID)) (h : ids.length = rcs.length) :
    (Path.create rcs ids).hops.map (·.rc) = rcs := by
  have hfst : (rcs.zip ids).map Prod.fst = rcs := List.map_fst_zip (by omega)
  rw [Path.create, map_rc_chainIDs, List.map_map]
  exact hfst

theorem idsNonzero_create (rcs : List RouterContact) (ids : List (PathID × PathID))
    (hnz : ∀ e ∈ ids, e.1 ≠ AlignedBuffer.zero 16 ∧ e.2 ≠ AlignedBuffer.zero 16) :
    ∀ h ∈ (Path.create rcs ids).hops, h.idsNonzero := by
  apply idsNonzero_chainIDs
  intro h hh
  obtain ⟨⟨rc, txID, rxID⟩, he, rfl⟩ := List.mem_map.mp hh
  exact hnz _ (List.of_mem_zip he).2

/-- The hops `Path::Path` lays out over the contacts `rc :: rcs`, the first one for `rc`. -/
theorem create_cons (rc : RouterContact) (rcs : List RouterContact) (ids : List (PathID × PathID))
    (hids : ids.length = rcs.length + 1) :
    ∃ hop rest, (Path.create (rc :: rcs) ids).hops = hop :: rest ∧ (hop :: rest).map (·.rc) = rc :: rcs := by
  have hmap := map_rc_create (rc :: rcs) ids hids
  cases h : (Path.create (rc :: rcs) ids).hops with
  | nil =>
    rw [h] at hmap
    simp at hmap
  | cons hop rest => exact ⟨hop, rest, rfl, h ▸ hmap⟩

end Create

/-! ### The status record -/

namespace LRStatusRecord

/-- The entries of the dict `LR_StatusRecord::BEncode` writes. -/
inductive Entry where
  | status (s : UInt64)
  | version (v : UInt64)

namespace Entry

def key : Entry → List UInt8
  | status _ => ascii "s"
  | version _ => ascii "v"

def enc : Entry → List UInt8
  | status s => integerEnc s
  | version v => integerEnc v

/-- What `OnKey` makes of an entry. -/
def step (r : LRStatusRecord) : Entry → LRStatusRecord
  | status s => { r with status := s }
  | version v => { r with version := v }

theorem length_key (x : Entry) : x.key.length = 1 := by
  cases x <;> rfl

end Entry

/-- The entries `BEncode` writes: the status, and the version the code runs. -/
def entries (r : LRStatusRecord) : List Entry := [.status r.status, .version llarpProtoVersion]

def enc (r : LRStatusRecord) : List UInt8 :=
  100 :: (((entries r).map (entryEnc Entry.key Entry.enc)).flatten ++ [101])

theorem puts_bEncode (r : LRStatusRecord) : Puts r.bEncode (enc r) := by
  have h := Puts.container 100 (Puts.cons (puts_bencodeWriteBytestring (ascii "s"))
    (Puts.cons (puts_bencodeWriteUint64 r.status)
      (Puts.singleton (puts_bencodeWriteUint64Entry (ascii "v") llarpProtoVersion))))
  simpa [LRStatusRecord.bEncode, enc, entries, entryEnc, Entry.key, Entry.enc, bencodeStartDict]
    using h

/-- A status record is a few bytes: two keys, two integers of at most 20 digits. -/
theorem length_enc_le (r : LRStatusRecord) : (enc r).length ≤ 33 := by
  have hs : (integerEnc r.status).length ≤ 22 := by
    have := length_decimal_uint64 r.status
    simp only [integerEnc, List.length_cons, List.length_append, List.length_nil]
    omega
  have hks : (bytestringEnc (ascii "s")).length = 3 := by decide
  have hkv : (bytestringEnc (ascii "v")).length = 3 := by decide
  have hv : (integerEnc llarpProtoVersion).length = 3 := by decide
  simp only [enc, entries, entryEnc, Entry.key, Entry.enc, List.map_cons, List.map_nil,
    List.flatten_cons, List.flatten_nil, List.length_cons, List.length_append, List.length_nil, hks,
    hkv, hv]
  omega

/-- `OnKey` reads each entry `BEncode` writes into any record. -/
theorem readsEntry {x : Entry} (hx : ∀ v, x = .version v → v = llarpProtoVersion) :
    ReadsEntry onKey Entry.key Entry.enc Entry.step x := by
  refine ⟨by rw [Entry.length_key]; decide, fun acc b rest h => ?_⟩
  cases x with
  | status s =>
    simp +decide only [onKey, Entry.key, ↓reduceIte]
    simp [bind_of_some (bencodeReadInteger_of_drop h), Entry.step, Entry.enc]
  | version v =>
    obtain rfl := hx v rfl
    simp +decide only [onKey, ↓reduceIte]
    simp [bind_of_some (bencodeReadInteger_of_drop h), Entry.step, Entry.enc]

/-- A new record reads back the status of the record written, and the version the code runs. -/
theorem bDecode_of_drop (r : LRStatusRecord) {b : LlarpBuffer} {rest : List UInt8}
    (h : b.mem.drop b.cur = enc r ++ rest) :
    create.bDecode b =
      some (some ⟨r.status, llarpProtoVersion⟩, { b with cur := b.cur + (enc r).length }) := by
  have hd : b.mem.drop b.cur =
      100 :: (((entries r).map (entryEnc Entry.key Entry.enc)).flatten ++ 101 :: rest) := by
    simpa [enc] using h
  have hread : ∀ x ∈ entries r, ReadsEntry onKey Entry.key Entry.enc Entry.step x := by
    intro x hx
    refine readsEntry fun v hv => ?_
    simp only [entries, hv, List.mem_cons, reduceCtorEq, Entry.version.injEq, List.mem_nil_iff,
      or_false, false_or] at hx
    exact hx
  rw [LRStatusRecord.bDecode, bencodeDecodeDict, bencodeReadDict_of_drop hread hd]
  simp [entries, Entry.step, create, enc, Nat.add_assoc]

end LRStatusRecord

/-! ### Frames -/

section Frames

variable {bc : BuildCrypto} (inet : Inet6) (srvValid : SRVRecord → Bool)
  (decodeVersion1 : RouterContact → BufferM (Option RouterContact))

/-- A frame's body: the room after the overhead, where a record is written. -/
theorem sizeLeft_body {frame : List UInt8} (h : frame.length = encryptedFrameSize) :
    (⟨frame, encryptedFrameOverheadSize⟩ : LlarpBuffer).sizeLeft =
      encryptedFrameSize - encryptedFrameOverheadSize := by
  simp [sizeLeft, h]

/-- The client opens the frame a hop made for a status with the hop's key, and decodes the status
from its body. -/
theorem openStatusFrame_statusFrame (hbc : bc.Ideal) (k : SharedSecret) (st : UInt64)
    (pad : AlignedBuffer encryptedFrameSize) :
    openStatusFrame bc k (some (statusFrame bc k st pad.bytes)) = .ok st := by
  have hroom : (LRStatusRecord.enc ⟨st, llarpProtoVersion⟩).length <
      (⟨pad.bytes, encryptedFrameOverheadSize⟩ : LlarpBuffer).sizeLeft := by
    rw [sizeLeft_body pad.length_eq, encryptedFrameBodySize_eq]
    have := LRStatusRecord.length_enc_le ⟨st, llarpProtoVersion⟩
    omega
  obtain ⟨buf, henc, hw⟩ := (LRStatusRecord.puts_bEncode ⟨st, llarpProtoVersion⟩).wrote hroom
  obtain ⟨-, hopen, hbody⟩ := hbc.decrypts_status k buf.mem
  have hframe : statusFrame bc k st pad.bytes = (bc.doEncrypt k buf.mem).2 := by
    unfold statusFrame
    rw [henc]
  -- the body the client opens starts with the record the hop wrote
  have hd : (bc.doDecrypt k (bc.doEncrypt k buf.mem).2).2.drop encryptedFrameOverheadSize =
      LRStatusRecord.enc ⟨st, llarpProtoVersion⟩ ++ buf.mem.drop buf.cur :=
    hbody.trans hw.drop_cur
  have hdec := LRStatusRecord.bDecode_of_drop ⟨st, llarpProtoVersion⟩
    (b := ⟨_, encryptedFrameOverheadSize⟩) hd
  rw [openStatusFrame, hframe, show bc.doDecrypt k (bc.doEncrypt k buf.mem).2 =
    (true, (bc.doDecrypt k (bc.doEncrypt k buf.mem).2).2) from Prod.ext hopen rfl]
  dsimp only
  rw [hdec]

/-- What `GenerateNextKey` leaves of a hop: its contact and ids, the key it shares with the hop's
router and the mask hashed from that key, and the next hop it names. -/
structure Keyed (bc : BuildCrypto) (hop : PathHopConfig) (next : Option PathHopConfig)
    (g : PathHopConfig) : Prop where
  rc : g.rc = hop.rc
  txID : g.txID = hop.txID
  rxID : g.rxID = hop.rxID
  shared : bc.dhClient g.rc.enckey g.commkey g.nonce = some g.shared
  nonceXOR : g.nonceXOR = bc.shorthash g.shared
  upstream : g.upstream = (next.map fun n => n.rc.pubkey).getD hop.rc.pubkey

theorem Keyed.idsNonzero {hop : PathHopConfig} {next : Option PathHopConfig} {g : PathHopConfig}
    (hk : Keyed bc hop next g) (h : hop.idsNonzero) : g.idsNonzero := by
  rw [PathHopConfig.idsNonzero, hk.txID, hk.rxID]
  exact h

/-- A frame `GenerateNextKey` leaves for a keyed hop: the record `r` written after the overhead of
a frame, and the frame sealed to the hop's router. -/
def Sealed (bc : BuildCrypto) (g : PathHopConfig) (r : LRCommitRecord) (f : List UInt8) : Prop :=
  ∃ framekey frame buf, r.bEncode inet ⟨frame, encryptedFrameOverheadSize⟩ = some (true, buf) ∧
    bc.encryptInPlace framekey g.rc.enckey buf.mem = (true, f)

/-- What `GenerateNextKey` did when it returned: it keyed the hop with the key and nonce it drew,
and sealed the hop's record in the frame. -/
theorem generateNextKey_eq_some {hop : PathHopConfig} {next : Option PathHopConfig}
    {commkey : SecretKey} {nonce : TunnelNonce} {framekey : SecretKey} {frame : List UInt8}
    {g : PathHopConfig} {f : List UInt8}
    (h : generateNextKey bc inet hop next commkey nonce framekey frame = some (g, f)) :
    Keyed bc hop next g ∧ g.commkey = commkey ∧ g.nonce = nonce ∧
      Sealed inet bc g (commitRecord bc g (next.map (·.rc))) f := by
  simp only [generateNextKey, bind, Option.bind_eq_some_iff] at h
  obtain ⟨shared, hshared, h⟩ := h
  split at h
  · rename_i buf henc
    split at h
    · rename_i f' hseal
      cases h
      exact ⟨⟨rfl, rfl, rfl, hshared, rfl, rfl⟩, rfl, rfl, framekey, frame, buf, henc, hseal⟩
    · cases h
  · cases h
  · cases h

/-- A record `GenerateNextKey` writes takes as many bytes as a new record with the same contact:
its keys and ids are of fixed size, and neither lifetime is written. -/
theorem length_enc_commitRecord (hop : PathHopConfig) (nextRC : Option RouterContact) :
    (LRCommitRecord.enc inet (commitRecord bc hop nextRC)).length =
      (LRCommitRecord.enc inet { LRCommitRecord.create with nextRC := nextRC }).length := by
  have hwin : ¬(10000 < (commitRecord bc hop nextRC).lifetime ∧
      (commitRecord bc hop nextRC).lifetime < defaultLifetime) := by
    simp [commitRecord]
  have hwin' : ¬(10000 < ({ LRCommitRecord.create with nextRC := nextRC } : LRCommitRecord).lifetime ∧
      ({ LRCommitRecord.create with nextRC := nextRC } : LRCommitRecord).lifetime < defaultLifetime) := by
    simp [LRCommitRecord.create]
  simp only [LRCommitRecord.enc, LRCommitRecord.entries_of_no_lifetime hwin,
    LRCommitRecord.entries_of_no_lifetime hwin']
  cases nextRC <;>
    simp [LRCommitRecord.fieldEntries, commitRecord, LRCommitRecord.create, entryEnc,
      LRCommitRecord.Entry.key, LRCommitRecord.Entry.enc, bytestringEnc, AlignedBuffer.length_eq]

/-- A contact the path builder passes to the hop before it: `RouterContact::BDecode` reads it back,
and a record carrying it fits, with a byte to spare, in a frame's body. -/
structure Carried (inet : Inet6) (rc : RouterContact) : Prop where
  valid : (LRCommitRecord.Entry.nextRC rc).Valid
  fits : (LRCommitRecord.enc inet { LRCommitRecord.create with nextRC := some rc }).length <
    encryptedFrameSize - encryptedFrameOverheadSize

/-- The farthest hop's record, which carries no contact, fits in a frame's body. -/
theorem fits_create :
    (LRCommitRecord.enc inet { LRCommitRecord.create with nextRC := none }).length <
      encryptedFrameSize - encryptedFrameOverheadSize := by
  simp [LRCommitRecord.enc, LRCommitRecord.entries, LRCommitRecord.lifetimeEntries,
    LRCommitRecord.laterEntries, LRCommitRecord.create, entryEnc, LRCommitRecord.Entry.key,
    LRCommitRecord.Entry.enc, bytestringEnc, integerEnc, AlignedBuffer.length_eq]
  decide

/-- With an honest router and a record that fits, `GenerateNextKey` returns. -/
theorem generateNextKey_isSome (hbc : bc.Ideal) {esk : SecretKey} {hop : PathHopConfig}
    (hkey : hop.rc.enckey = bc.seckeyToPublic esk) (next : Option PathHopConfig)
    (hnext : ∀ n ∈ next, Carried inet n.rc) (commkey : SecretKey) (nonce : TunnelNonce)
    (framekey : SecretKey) {frame : List UInt8} (hframe : frame.length = encryptedFrameSize) :
    ∃ g f, generateNextKey bc inet hop next commkey nonce framekey frame = some (g, f) := by
  obtain ⟨shared, hshared, -⟩ := hbc.dh_agree commkey esk nonce
  rw [← hkey] at hshared
  -- the record, with the next hop's contact if any, fits in the frame's body
  have hfit : (LRCommitRecord.enc inet
      (commitRecord bc (keyHop bc hop next commkey nonce shared) (next.map (·.rc)))).length <
      (⟨frame, encryptedFrameOverheadSize⟩ : LlarpBuffer).sizeLeft := by
    rw [sizeLeft_body hframe, length_enc_commitRecord]
    cases next with
    | none => exact fits_create inet
    | some n => exact (hnext n rfl).fits
  have hv : ∀ rc ∈ (commitRecord bc (keyHop bc hop next commkey nonce shared) (next.map (·.rc))).nextRC,
      rc.version = 0 ∨ rc.version = 1 := by
    intro rc hrc
    cases next with
    | none => simp [commitRecord] at hrc
    | some n =>
      simp only [commitRecord, Option.map_some, Option.mem_def, Option.some.injEq] at hrc
      exact Or.inl (hrc ▸ (hnext n rfl).valid.1)
  obtain ⟨buf, henc, -⟩ := (LRCommitRecord.puts_bEncode inet _ hv).wrote hfit
  have hseal := (hbc.decrypts_commit framekey esk buf.mem).1
  rw [← hkey] at hseal
  refine ⟨keyHop bc hop next commkey nonce shared,
    (bc.encryptInPlace framekey hop.rc.enckey buf.mem).2, ?_⟩
  simp only [generateNextKey, bind, Option.bind_eq_some_iff]
  refine ⟨shared, hshared, ?_⟩
  rw [henc]
  dsimp only
  rw [show bc.encryptInPlace framekey (keyHop bc hop next commkey nonce shared).rc.enckey buf.mem =
    (true, (bc.encryptInPlace framekey hop.rc.enckey buf.mem).2) from Prod.ext hseal rfl]
  rfl

/-- What `GenerateNextKey` did for each hop when the loop returned: the first hop keyed with the
first draws, its frame sealed, and the rest of the loop returned too. -/
theorem generateKeys_cons_eq_some {hop : PathHopConfig} {rest : List PathHopConfig}
    {keys : List (SecretKey × TunnelNonce × SecretKey)} {frames : List (List UInt8)}
    {gs : List PathHopConfig} {fs : List (List UInt8)}
    (h : generateKeys bc inet (hop :: rest) keys frames = some (gs, fs)) :
    ∃ g f gs' fs' keys' frames', Keyed bc hop rest.head? g ∧
      Sealed inet bc g (commitRecord bc g (rest.head?.map (·.rc))) f ∧
      (∃ framekey, keys = (g.commkey, g.nonce, framekey) :: keys') ∧
      generateKeys bc inet rest keys' frames' = some (gs', fs') ∧ gs = g :: gs' ∧ fs = f :: fs' := by
  match keys, frames, h with
  | (commkey, nonce, framekey) :: keys, frame :: frames, h =>
    simp only [generateKeys, bind, Option.bind_eq_some_iff, Prod.exists] at h
    obtain ⟨g, f, hgen, gs', fs', hrest, heq⟩ := h
    obtain ⟨hk, rfl, rfl, hs⟩ := generateNextKey_eq_some inet hgen
    simp only [pure, Option.some.injEq, Prod.mk.injEq] at heq
    exact ⟨g, f, gs', fs', keys, frames, hk, hs, ⟨framekey, rfl⟩, hrest, heq.1.symm, heq.2.symm⟩
  | [], _, h => simp [generateKeys] at h
  | _ :: _, [], h => simp [generateKeys] at h

/-- Key generation keeps each hop's contact and ids. -/
theorem map_generateKeys : ∀ {hops : List PathHopConfig} {keys : List (SecretKey × TunnelNonce × SecretKey)}
    {frames : List (List UInt8)} {gs : List PathHopConfig} {fs : List (List UInt8)},
    generateKeys bc inet hops keys frames = some (gs, fs) →
    gs.map (fun g => (g.rc, g.txID, g.rxID)) = hops.map fun g => (g.rc, g.txID, g.rxID)
  | [], _, _, _, _, h => by
    simp only [generateKeys, Option.some.injEq, Prod.mk.injEq] at h
    simp [← h.1]
  | _ :: _, _, _, _, _, h => by
    obtain ⟨g, f, gs', fs', keys', frames', hk, -, -, hrest, rfl, rfl⟩ := generateKeys_cons_eq_some inet h
    rw [List.map_cons, map_generateKeys hrest, List.map_cons, hk.rc, hk.txID, hk.rxID]

/-- With honest routers, contacts that fit and a frame for each hop, the loop returns. -/
theorem generateKeys_isSome (hbc : bc.Ideal) (secretOf : RouterID → SecretKey) :
    ∀ (hops : List PathHopConfig) (keys : List (SecretKey × TunnelNonce × SecretKey))
      (frames : List (List UInt8)), keys.length = hops.length → hops.length ≤ frames.length →
      (∀ f ∈ frames, f.length = encryptedFrameSize) →
      (∀ h ∈ hops, h.rc.enckey = bc.seckeyToPublic (secretOf h.rc.pubkey)) →
      (∀ h ∈ hops.tail, Carried inet h.rc) →
      ∃ gs fs, generateKeys bc inet hops keys frames = some (gs, fs)
  | [], _, frames, _, _, _, _, _ => ⟨[], frames, rfl⟩
  | _ :: _, [], _, hk, _, _, _, _ => by simp at hk
  | _ :: _, _ :: _, [], _, hf, _, _, _ => by simp at hf
  | hop :: rest, (commkey, nonce, framekey) :: keys, frame :: frames, hk, hf, hlen, hhon, hcarry => by
    have hnext : ∀ n ∈ rest.head?, Carried inet n.rc := fun n hn =>
      hcarry n (by simpa using List.mem_of_mem_head? hn)
    obtain ⟨g, f, hgen⟩ := generateNextKey_isSome inet hbc (hhon hop List.mem_cons_self) rest.head?
      hnext commkey nonce framekey (hlen frame List.mem_cons_self)
    obtain ⟨gs, fs, hrest⟩ := generateKeys_isSome hbc secretOf rest keys frames
      (by simpa using hk) (by simp at hf; omega) (fun f hf => hlen f (List.mem_cons_of_mem _ hf))
      (fun h hh => hhon h (List.mem_cons_of_mem _ hh))
      (fun h hh => hcarry h (List.mem_of_mem_tail hh))
    refine ⟨g :: gs, f :: fs, ?_⟩
    simp only [generateKeys, bind, Option.bind_eq_some_iff, Prod.exists]
    exact ⟨g, f, hgen, gs, fs, hrest, rfl⟩

end Frames

section Forward

variable (bc : BuildCrypto) (inet : Inet6) (srvValid : SRVRecord → Bool)
  (decodeVersion1 : RouterContact → BufferM (Option RouterContact))

/-- The hop a router sets up from the client's record for `g`, having got it from `down`. -/
def transitOf (g : PathHopConfig) (down : RouterID) : TransitHop :=
  ⟨⟨g.txID, g.rxID, g.upstream, down⟩, g.shared, g.nonceXOR⟩

/-- The routers a commit reaches on a path of honest routers with hops `gs`, the `i`-th first, and
the status the last one sends back: each router is the one the client chose for its hop, holds
the client's record for it as `BDecode` reads it back, and keys its hop as the client did. -/
def reached (outcome : Nat → Option UInt64) : Nat → RouterID → List PathHopConfig →
    List (RouterID × LRCommitRecord × TransitHop) × Option UInt64
  | _, _, [] => ([], none)
  | i, down, g :: gs =>
    let entry := (g.rc.pubkey, LRCommitRecord.readBack (commitRecord bc g (gs.head?.map (·.rc))),
      transitOf g down)
    match gs, outcome i with
    | [], o => ([entry], some (o.getD statusSuccess))
    | _ :: _, some code => ([entry], some code)
    | g' :: gs', none =>
      let r := reached outcome (i + 1) g.rc.pubkey (g' :: gs')
      (entry :: r.1, r.2)

variable {bc}

/-- A router opens the frame the client sealed for it, when the router's key is the one the client
used and the hop's ids are set: it decodes the record as `BDecode` reads it back, and keys its hop
as the client did. -/
theorem handleDecrypted_sealed (hbc : bc.Ideal) {esk : SecretKey} {g : PathHopConfig}
    {nextRC : Option RouterContact} {f : List UInt8} (hkey : g.rc.enckey = bc.seckeyToPublic esk)
    (hshared : bc.dhClient g.rc.enckey g.commkey g.nonce = some g.shared)
    (hmask : g.nonceXOR = bc.shorthash g.shared) (hnz : g.idsNonzero)
    (hrc : ∀ rc ∈ nextRC, (LRCommitRecord.Entry.nextRC rc).Valid)
    (hsealed : Sealed inet bc g (commitRecord bc g nextRC) f) (us down : RouterID)
    (rest : List (List UInt8)) (random : List UInt8) :
    handleDecrypted bc inet srvValid decodeVersion1 esk us down (f :: rest) random =
      some (LRCommitRecord.readBack (commitRecord bc g nextRC), transitOf g down, rest ++ [random],
        decide (g.upstream = us)) := by
  obtain ⟨framekey, frame, buf, henc, hseal⟩ := hsealed
  obtain ⟨-, hopen, hbody⟩ := hbc.decrypts_commit framekey esk buf.mem
  rw [← hkey, hseal] at hopen hbody
  -- the body the router opens starts with the record the client wrote
  have hd : (bc.decryptInPlace esk f).2.drop encryptedFrameOverheadSize =
      LRCommitRecord.enc inet (commitRecord bc g nextRC) ++ buf.mem.drop buf.cur :=
    hbody.trans (LRCommitRecord.clean_bEncode inet _ _ _ henc).drop_cur
  have hwin : ¬(10000 < (commitRecord bc g nextRC).lifetime ∧
      (commitRecord bc g nextRC).lifetime < defaultLifetime) := by
    simp [commitRecord]
  have hdec := LRCommitRecord.bDecode_of_drop inet srvValid decodeVersion1 _ hwin hrc
    (b := ⟨(bc.decryptInPlace esk f).2, encryptedFrameOverheadSize⟩) hd
  -- the router's side of the key exchange meets the client's
  obtain ⟨k, hc, hs⟩ := hbc.dh_agree g.commkey esk g.nonce
  rw [← hkey, hshared, Option.some.injEq] at hc
  subst hc
  rw [handleDecrypted, show bc.decryptInPlace esk f = (true, (bc.decryptInPlace esk f).2) from
    Prod.ext hopen rfl]
  dsimp only
  rw [hdec]
  simp [LRCommitRecord.readBack, commitRecord, hnz.1, hnz.2, hs, transitOf, hmask]
  congr

/-- A router that finds itself named as the next hop of the hop it opens answers as the farthest
hop: the commit goes no further. -/
theorem forwardLRCM_farthest (hbc : bc.Ideal) {secretOf : RouterID → SecretKey}
    (outcome : Nat → Option UInt64) (random : Nat → AlignedBuffer encryptedFrameSize)
    {hop : PathHopConfig} {next : Option PathHopConfig} {g : PathHopConfig}
    {nextRC : Option RouterContact} {f : List UInt8} (hk : Keyed bc hop next g)
    (hkey : hop.rc.enckey = bc.seckeyToPublic (secretOf hop.rc.pubkey)) (hnz : hop.idsNonzero)
    (hrc : ∀ rc ∈ nextRC, (LRCommitRecord.Entry.nextRC rc).Valid)
    (hsealed : Sealed inet bc g (commitRecord bc g nextRC) f) (hup : g.upstream = hop.rc.pubkey)
    (fuel i : Nat) (down : RouterID) (rest : List (List UInt8)) :
    forwardLRCM bc inet srvValid decodeVersion1 secretOf outcome random (fuel + 1) i hop.rc.pubkey down
        (f :: rest) =
      ([(hop.rc.pubkey, (commitRecord bc g nextRC).readBack, transitOf g down)],
        some ((outcome i).getD statusSuccess)) := by
  have hkey' : g.rc.enckey = bc.seckeyToPublic (secretOf g.rc.pubkey) := by
    rw [hk.rc]
    exact hkey
  rw [forwardLRCM, ← hk.rc, handleDecrypted_sealed inet srvValid decodeVersion1 hbc hkey' hk.shared
    hk.nonceXOR (hk.idsNonzero hnz) hrc hsealed]
  simp [hup, hk.rc]

theorem forwardLRCM_generateKeys (hbc : bc.Ideal) (secretOf : RouterID → SecretKey)
    (outcome : Nat → Option UInt64) (random : Nat → AlignedBuffer encryptedFrameSize) :
    ∀ (rest : List PathHopConfig) (hop : PathHopConfig) (keys : List (SecretKey × TunnelNonce × SecretKey))
      (frames : List (List UInt8)) (gs : List PathHopConfig) (fs : List (List UInt8))
      (fuel i : Nat) (down : RouterID) (J : List (List UInt8)),
      generateKeys bc inet (hop :: rest) keys frames = some (gs, fs) → rest.length < fuel →
      (∀ h ∈ hop :: rest, h.rc.enckey = bc.seckeyToPublic (secretOf h.rc.pubkey)) →
      (∀ h ∈ rest, (LRCommitRecord.Entry.nextRC h.rc).Valid) →
      (∀ h ∈ hop :: rest, h.idsNonzero) →
      (hop :: rest).IsChain (fun a b => a.rc.pubkey ≠ b.rc.pubkey) →
      forwardLRCM bc inet srvValid decodeVersion1 secretOf outcome random fuel i hop.rc.pubkey down
          (fs ++ J) =
        reached bc outcome i down gs := by
  intro rest
  induction rest with
  | nil =>
    intro hop keys frames gs fs fuel i down J hgen hf hhon _ hnz _
    obtain ⟨g, f, gs', fs', _, _, hk, hsealed, -, hrest, rfl, rfl⟩ := generateKeys_cons_eq_some inet hgen
    simp only [generateKeys, Option.some.injEq, Prod.mk.injEq] at hrest
    obtain ⟨rfl, rfl⟩ := hrest
    obtain ⟨fuel, rfl⟩ : ∃ n, fuel = n + 1 := ⟨fuel - 1, by simp at hf; omega⟩
    -- the farthest hop names itself as the next one
    rw [List.cons_append, forwardLRCM_farthest inet srvValid decodeVersion1 hbc outcome random hk
      (hhon hop List.mem_cons_self) (hnz hop List.mem_cons_self) (by simp) hsealed
      (by simp [hk.upstream])]
    simp [hk.rc, reached]
  | cons next rest ih =>
    intro hop keys frames gs fs fuel i down J hgen hf hhon hvalid hnz hchain
    obtain ⟨g, f, gs', fs', keys', frames', hk, hsealed, -, hrest, rfl, rfl⟩ :=
      generateKeys_cons_eq_some inet hgen
    obtain ⟨g', f', gs'', fs'', -, -, hk', -, -, -, rfl, -⟩ := generateKeys_cons_eq_some inet hrest
    obtain ⟨fuel, rfl⟩ : ∃ n, fuel = n + 1 := ⟨fuel - 1, by simp at hf; omega⟩
    have hkey : g.rc.enckey = bc.seckeyToPublic (secretOf g.rc.pubkey) := by
      rw [hk.rc]
      exact hhon hop List.mem_cons_self
    have hne : next.rc.pubkey ≠ hop.rc.pubkey := fun h => (List.isChain_cons_cons.mp hchain).1 h.symm
    have hup : g.upstream = next.rc.pubkey := by simp [hk.upstream]
    rw [List.cons_append, forwardLRCM, ← hk.rc, handleDecrypted_sealed inet srvValid decodeVersion1
      hbc hkey hk.shared hk.nonceXOR (hk.idsNonzero (hnz hop List.mem_cons_self))
      (fun rc hrc => by
        obtain rfl : next.rc = rc := by simpa using hrc
        exact hvalid next List.mem_cons_self) hsealed]
    simp only [hup, hk.rc, hne, decide_false, Bool.false_eq_true, ↓reduceIte]
    cases ho : outcome i with
    | some code => simp [reached, ho, hk.rc, hk'.rc]
    | none =>
      have hrec := ih next keys' frames' (g' :: gs'') fs' fuel (i + 1) hop.rc.pubkey
        (J ++ [(random i).bytes]) hrest (by simp at hf ⊢; omega)
        (fun h hh => hhon h (List.mem_cons_of_mem _ hh))
        (fun h hh => hvalid h (List.mem_cons_of_mem _ hh))
        (fun h hh => hnz h (List.mem_cons_of_mem _ hh)) (List.isChain_cons_cons.mp hchain).2
      have hup' : (transitOf g down).info.upstream = next.rc.pubkey := hup
      simp [hup', hrec, reached, ho, hk.rc, hk'.rc]

end Forward

section Reached

variable (bc : BuildCrypto) (outcome : Nat → Option UInt64)

/-- The routers, records and hops of every hop of `gs`, as the commit would leave them if it
reached them all. -/
def entries : RouterID → List PathHopConfig → List (RouterID × LRCommitRecord × TransitHop)
  | _, [] => []
  | down, g :: gs =>
    (g.rc.pubkey, LRCommitRecord.readBack (commitRecord bc g (gs.head?.map (·.rc))), transitOf g down) ::
      entries g.rc.pubkey gs

/-- The records the client writes for the hops `gs`, each with the next hop's contact. -/
def commitRecords : List PathHopConfig → List LRCommitRecord
  | [] => []
  | g :: gs => commitRecord bc g (gs.head?.map (·.rc)) :: commitRecords gs

theorem reached_singleton (i : Nat) (down : RouterID) (g : PathHopConfig) :
    reached bc outcome i down [g] =
      ([(g.rc.pubkey, LRCommitRecord.readBack (commitRecord bc g none), transitOf g down)],
        some ((outcome i).getD statusSuccess)) := rfl

theorem reached_of_some {i : Nat} {code : UInt64} (h : outcome i = some code) (down : RouterID)
    (g g' : PathHopConfig) (gs : List PathHopConfig) :
    reached bc outcome i down (g :: g' :: gs) =
      ([(g.rc.pubkey, LRCommitRecord.readBack (commitRecord bc g (some g'.rc)), transitOf g down)],
        some code) := by
  simp [reached, h]

theorem reached_of_none {i : Nat} (h : outcome i = none) (down : RouterID) (g g' : PathHopConfig)
    (gs : List PathHopConfig) :
    reached bc outcome i down (g :: g' :: gs) =
      ((g.rc.pubkey, LRCommitRecord.readBack (commitRecord bc g (some g'.rc)), transitOf g down) ::
          (reached bc outcome (i + 1) g.rc.pubkey (g' :: gs)).1,
        (reached bc outcome (i + 1) g.rc.pubkey (g' :: gs)).2) := by
  simp [reached, h]

/-- The hops a commit reaches are the first ones of the path. -/
theorem reached_isPrefix_entries : ∀ (i : Nat) (down : RouterID) (gs : List PathHopConfig),
    (reached bc outcome i down gs).1 <+: entries bc down gs
  | _, _, [] => List.nil_prefix
  | i, down, [g] => by
    rw [reached_singleton]
    exact List.prefix_refl _
  | i, down, g :: g' :: gs => by
    cases h : outcome i with
    | some code =>
      rw [reached_of_some bc outcome h]
      exact ⟨_, rfl⟩
    | none =>
      rw [reached_of_none bc outcome h, entries]
      exact (List.prefix_cons_inj _).mpr (reached_isPrefix_entries (i + 1) g.rc.pubkey (g' :: gs))

/-- How far a commit gets from the `i`-th of `n` hops: `k` hops get it, all but the last of them
pass it on, and when it stops short of the end the last one failed. -/
structure Reach (i n k : Nat) : Prop where
  pos : 1 ≤ k
  le : k ≤ n
  forwarded : ∀ j, j + 1 < k → outcome (i + j) = none
  failed : k < n → (outcome (i + k - 1)).isSome

theorem reach_reached : ∀ (i : Nat) (down : RouterID) (gs : List PathHopConfig), gs ≠ [] →
    Reach outcome i gs.length (reached bc outcome i down gs).1.length
  | _, _, [], h => absurd rfl h
  | i, down, [g], _ => by
    rw [reached_singleton]
    exact ⟨le_rfl, le_rfl, fun j hj => by simp at hj, fun h => by simp at h⟩
  | i, down, g :: g' :: gs, _ => by
    cases h : outcome i with
    | some code =>
      rw [reached_of_some bc outcome h]
      refine ⟨le_rfl, by simp, fun j hj => by simp at hj, fun _ => ?_⟩
      simp [h]
    | none =>
      rw [reached_of_none bc outcome h]
      obtain ⟨pos, le, forwarded, failed⟩ := reach_reached (i + 1) g.rc.pubkey (g' :: gs) (List.cons_ne_nil _ _)
      set k := (reached bc outcome (i + 1) g.rc.pubkey (g' :: gs)).1.length
      simp only [List.length_cons] at le failed ⊢
      refine ⟨by omega, by omega, ?_, ?_⟩
      · intro j hj
        cases j with
        | zero => exact h
        | succ j =>
          rw [show i + (j + 1) = i + 1 + j by omega]
          exact forwarded j (by omega)
      · intro hk
        rw [show i + (k + 1) - 1 = i + 1 + k - 1 by omega]
        exact failed (by omega)

/-- The status that comes back is the answer of the last hop reached. -/
theorem reached_status : ∀ (i : Nat) (down : RouterID) (gs : List PathHopConfig), gs ≠ [] →
    (reached bc outcome i down gs).2 =
      some ((outcome (i + (reached bc outcome i down gs).1.length - 1)).getD statusSuccess)
  | _, _, [], h => absurd rfl h
  | i, down, [g], _ => by simp [reached_singleton]
  | i, down, g :: g' :: gs, _ => by
    cases h : outcome i with
    | some code => simp [reached_of_some bc outcome h, h]
    | none =>
      have hpos := (reach_reached bc outcome (i + 1) g.rc.pubkey (g' :: gs) (List.cons_ne_nil _ _)).pos
      rw [reached_of_none bc outcome h, reached_status (i + 1) g.rc.pubkey (g' :: gs) (List.cons_ne_nil _ _),
        List.length_cons]
      congr 3
      omega

end Reached


section ReachFacts

variable {outcome : Nat → Option UInt64} {i n k : Nat}

/-- The `m`-th hop is reached exactly when every hop before it passed the commit on. -/
theorem Reach.lt_iff (hr : Reach outcome i n k) {m : Nat} (hm : m < n) :
    m < k ↔ ∀ j < m, outcome (i + j) = none := by
  constructor
  · intro hmk j hj
    exact hr.forwarded j (by omega)
  · intro hfwd
    by_contra hkm
    -- the commit stopped at hop `k - 1 < m`, which then failed
    have hfail := hr.failed (by omega)
    rw [show i + k - 1 = i + (k - 1) by have := hr.pos; omega, hfwd (k - 1) (by have := hr.pos; omega)] at hfail
    exact Bool.false_ne_true hfail

/-- A hop that fails after all those before it passed the commit on is the last one reached. -/
theorem Reach.eq_of_some (hr : Reach outcome i n k) {m : Nat} {code : UInt64} (hm : m < n)
    (hcode : outcome (i + m) = some code) (hfwd : ∀ j < m, outcome (i + j) = none) : k = m + 1 := by
  have hlt : m < k := (hr.lt_iff hm).mpr hfwd
  by_contra hne
  have := hr.forwarded m (by omega)
  rw [hcode] at this
  exact Option.some_ne_none _ this

end ReachFacts

section Entries

variable (bc : BuildCrypto)

/-- What the routers hold of each hop, seen through `v`, is the client's hop seen through `f`,
when `v` of a hop's entry depends neither on the record nor on where the hop got the commit
from. -/
theorem map_entries {β : Type} (v : RouterID × LRCommitRecord × TransitHop → β) (f : PathHopConfig → β)
    (hv : ∀ g r down, v (g.rc.pubkey, r, transitOf g down) = f g) :
    ∀ (down : RouterID) (gs : List PathHopConfig), (entries bc down gs).map v = gs.map f
  | _, [] => rfl
  | down, g :: gs => by
    rw [entries, List.map_cons, hv, map_entries v f hv g.rc.pubkey gs, List.map_cons]

/-- The records the routers hold are the client's, as `BDecode` reads them back. -/
theorem records_entries : ∀ (down : RouterID) (gs : List PathHopConfig),
    (entries bc down gs).map (·.2.1) = (commitRecords bc gs).map LRCommitRecord.readBack
  | _, [] => rfl
  | down, g :: gs => by
    rw [entries, List.map_cons, records_entries g.rc.pubkey gs, commitRecords, List.map_cons]

theorem reached_eq_take (outcome : Nat → Option UInt64) (i : Nat) (down : RouterID) (gs : List PathHopConfig) :
    (reached bc outcome i down gs).1 = (entries bc down gs).take (reached bc outcome i down gs).1.length :=
  List.prefix_iff_eq_take.mp (reached_isPrefix_entries bc outcome i down gs)

/-- What the reached routers hold, seen through `v`, is the first hops of the client's path seen
through `f`. -/
theorem map_reached {β : Type} (v : RouterID × LRCommitRecord × TransitHop → β) (f : PathHopConfig → β)
    (hv : ∀ g r down, v (g.rc.pubkey, r, transitOf g down) = f g)
    (outcome : Nat → Option UInt64) (i : Nat) (down : RouterID) (gs : List PathHopConfig) :
    (reached bc outcome i down gs).1.map v = (gs.take (reached bc outcome i down gs).1.length).map f := by
  rw [reached_eq_take, List.map_take, map_entries bc v f hv, ← List.map_take, ← reached_eq_take]

/-- The reached routers hold the first records the client wrote, as `BDecode` reads them back. -/
theorem records_reached (outcome : Nat → Option UInt64) (i : Nat) (down : RouterID)
    (gs : List PathHopConfig) :
    (reached bc outcome i down gs).1.map (·.2.1) =
      ((commitRecords bc gs).take (reached bc outcome i down gs).1.length).map LRCommitRecord.readBack := by
  rw [reached_eq_take, List.map_take, records_entries, ← List.map_take, ← reached_eq_take]

end Entries

section Status

variable (bc : BuildCrypto)

theorem statusFrames_cons_cons (st : UInt64) (pad : Nat → AlignedBuffer encryptedFrameSize) (i : Nat)
    (t t' : TransitHop) (ts : List TransitHop) :
    statusFrames bc st pad i (t :: t' :: ts) =
      addFrame bc t.pathKey statusSuccess (pad i).bytes (statusFrames bc st pad (i + 1) (t' :: ts)) := rfl

/-- The frame the client reads for the `m`-th hop is that hop's status, the answering hop's last
and `SUCCESS` below it, under the hop's key: `AddFrame` pushes each frame down one place, and the
frames it drops off the end are past the path. -/
theorem getElem?_statusFrames (st : UInt64) (pad : Nat → AlignedBuffer encryptedFrameSize) :
    ∀ (i : Nat) (ts : List TransitHop), ts.length ≤ maxLen → ∀ m < ts.length,
      (statusFrames bc st pad i ts)[m]? =
        ts[m]?.map fun t => statusFrame bc t.pathKey (if m + 1 = ts.length then st else statusSuccess)
          (pad (i + m)).bytes
  | _, [], _, m, hm => absurd hm (Nat.not_lt_zero m)
  | i, [t], _, m, hm => by
    obtain rfl : m = 0 := by simpa using hm
    simp [statusFrames, addFrame]
  | i, t :: t' :: ts, hlen, m, hm => by
    rw [statusFrames_cons_cons, addFrame]
    cases m with
    | zero => simp
    | succ m =>
      simp only [List.length_cons] at hlen hm
      have h8 : maxLen = 8 := rfl
      have hm7 : m < maxLen - 1 := by omega
      rw [List.getElem?_cons_succ, List.getElem?_take_of_lt hm7,
        getElem?_statusFrames st pad (i + 1) (t' :: ts) (by simp; omega) m (by simp; omega),
        List.getElem?_cons_succ, show i + 1 + m = i + (m + 1) by omega]
      simp

end Status


section Client

variable {bc : BuildCrypto}

theorem statusSuccess_and_self : statusSuccess &&& statusSuccess = statusSuccess := by decide

/-- The client opens the frame at `index` with the hop's key and reads the status `st` from it: it
ends with `st` and blames the hop or the next one when `st` is a failure, and reads on
otherwise. -/
theorem handleLRSMLoop_cons_statusFrame (hbc : bc.Ideal) {frames : List (List UInt8)} {index : Nat}
    {h : PathHopConfig} {st : UInt64} {pad : AlignedBuffer encryptedFrameSize}
    (hf : frames[index]? = some (statusFrame bc h.shared st pad.bytes)) (hs : List PathHopConfig)
    (s : UInt64) :
    handleLRSMLoop bc frames (h :: hs) index s =
      if st &&& statusSuccess ≠ statusSuccess then
        (st, if st &&& failCongestion ≠ 0 ∧ index = 0 then some h.rc.pubkey
          else hs.head?.map fun next => next.rc.pubkey)
      else handleLRSMLoop bc frames hs (index + 1) st := by
  rw [handleLRSMLoop, hf, openStatusFrame_statusFrame hbc]
  dsimp only
  split_ifs <;> rfl

/-- The client reads `SUCCESS` from each of the first `k - 1` hops and `st` from the `k`-th: it ends
with `st` and blames the hop after the `k`-th (the `k`-th itself on congestion at the first hop)
when `st` is a failure, and reads on from the next hop otherwise. -/
theorem handleLRSMLoop_statuses (hbc : bc.Ideal) (frames : List (List UInt8)) (st : UInt64)
    (pad : Nat → AlignedBuffer encryptedFrameSize) :
    ∀ (hs : List PathHopConfig) (index k : Nat) (s : UInt64), 1 ≤ k → k ≤ hs.length →
      (∀ m < k, frames[index + m]? = hs[m]?.map fun h =>
        statusFrame bc h.shared (if m + 1 = k then st else statusSuccess) (pad (index + m)).bytes) →
      handleLRSMLoop bc frames hs index s =
        if st &&& statusSuccess ≠ statusSuccess then
          (st, (if st &&& failCongestion ≠ 0 ∧ index + k - 1 = 0 then hs[k - 1]? else hs[k]?).map
            fun h => h.rc.pubkey)
        else handleLRSMLoop bc frames (hs.drop k) (index + k) st
  | [], _, k, _, hk, hkn, _ => absurd hkn (by simp; omega)
  | h :: hs, index, k, s, hk, hkn, hf => by
    have hf0 := hf 0 hk
    rw [Nat.add_zero, List.getElem?_cons_zero, Option.map_some] at hf0
    rw [handleLRSMLoop_cons_statusFrame hbc hf0]
    cases k with
    | zero => omega
    | succ k =>
      cases k with
      | zero =>
        -- the first hop's frame holds the last status
        by_cases hst : st &&& statusSuccess ≠ statusSuccess
        · simp only [zero_add, if_true, Nat.add_sub_cancel]
          split_ifs <;> simp [List.head?_eq_getElem?]
        · simp [hst]
      | succ k =>
        -- a hop below the one that answered: `SUCCESS`, and the client reads on
        have hrest := handleLRSMLoop_statuses hbc frames st pad hs (index + 1) (k + 1) statusSuccess
          (by omega) (by simp at hkn; omega) (fun m hm => by
            have := hf (m + 1) (by omega)
            simpa [show index + (m + 1) = index + 1 + m by omega] using this)
        simp only [zero_add, show ¬ (1 = k + 1 + 1) by omega, if_false, statusSuccess_and_self, ne_eq,
          not_true_eq_false, if_false, hrest]
        simp [show index + 1 + (k + 1) = index + (k + 1 + 1) by omega]

end Client


section Answer

variable {bc : BuildCrypto} {outcome : Nat → Option UInt64}

/-- The status message the routers send back for a commit that reached `r`: each hop's frame under
that hop's key, as the client keyed it. -/
theorem getElem?_statusFrames_reached {i : Nat} {us : RouterID} {gs : List PathHopConfig}
    (hlen : gs.length ≤ maxLen) {r : List (RouterID × LRCommitRecord × TransitHop) × Option UInt64}
    (hr : reached bc outcome i us gs = r) (st : UInt64) (pad : Nat → AlignedBuffer encryptedFrameSize) :
    ∀ m < r.1.length, (statusFrames bc st pad 0 (r.1.map fun e => e.2.2))[m]? =
      gs[m]?.map fun h => statusFrame bc h.shared (if m + 1 = r.1.length then st else statusSuccess)
        (pad m).bytes := by
  intro m hm
  have hk : r.1.length ≤ gs.length := by
    rw [← hr, ← List.length_map (f := fun e => e.2.2.pathKey), map_reached bc (fun e => e.2.2.pathKey)
      (fun g => g.shared) (fun _ _ _ => rfl)]
    simp
  -- the hops' keys are the client's
  have hkeys : (r.1.map fun e => e.2.2.pathKey) = (gs.take r.1.length).map fun g => g.shared := by
    rw [← hr]
    exact map_reached bc (fun e => e.2.2.pathKey) (fun g => g.shared) (fun _ _ _ => rfl) outcome i us gs
  have hkey : (r.1[m]?.map fun e => e.2.2.pathKey) = gs[m]?.map fun g => g.shared := by
    rw [← List.getElem?_map, hkeys, List.getElem?_map, List.getElem?_take_of_lt hm]
  rw [getElem?_statusFrames bc st pad 0 _ (by simp; omega) m (by simpa using hm), List.length_map,
    List.getElem?_map, zero_add]
  simpa [Option.map_map, Function.comp_def] using congrArg (Option.map fun key =>
    statusFrame bc key (if m + 1 = r.1.length then st else statusSuccess) (pad m).bytes) hkey

/-- A status the routers send back is `SUCCESS` exactly when the hop that answered accepted. -/
theorem getD_statusSuccess_iff (hcodes : ∀ i code, outcome i = some code → code &&& statusSuccess ≠ statusSuccess)
    (i : Nat) : (outcome i).getD statusSuccess &&& statusSuccess = statusSuccess ↔ outcome i = none := by
  cases h : outcome i with
  | none => simp
  | some code => simpa using hcodes i code h

/-- What the client makes of the status message: success exactly when every hop accepted, and
otherwise the hop after the first one that failed, or that hop itself on congestion at the first
hop. -/
theorem handleLRSMLoop_reached (hbc : bc.Ideal)
    (hcodes : ∀ i code, outcome i = some code → code &&& statusSuccess ≠ statusSuccess)
    {us : RouterID} {gs : List PathHopConfig} (hne : gs ≠ []) (hlen : gs.length ≤ maxLen)
    {r : List (RouterID × LRCommitRecord × TransitHop) × Option UInt64} (hr : reached bc outcome 0 us gs = r)
    (pad : Nat → AlignedBuffer encryptedFrameSize) (s : UInt64) :
    ((handleLRSMLoop bc (statusFrames bc (r.2.getD statusSuccess) pad 0 (r.1.map fun e => e.2.2)) gs 0 s).1 &&&
        statusSuccess = statusSuccess ↔ ∀ m < gs.length, outcome m = none) ∧
      ∀ m < gs.length, ∀ code, outcome m = some code → (∀ j < m, outcome j = none) →
        (handleLRSMLoop bc (statusFrames bc (r.2.getD statusSuccess) pad 0 (r.1.map fun e => e.2.2)) gs 0 s).2 =
          (if code &&& failCongestion ≠ 0 ∧ m = 0 then gs[m]? else gs[m + 1]?).map fun h => h.rc.pubkey := by
  have hn : 0 < gs.length := List.length_pos_of_ne_nil hne
  have hreach := reach_reached bc outcome 0 us gs hne
  have hstatus := reached_status bc outcome 0 us gs hne
  rw [hr] at hreach hstatus
  set k := r.1.length with hk
  set st := (outcome (k - 1)).getD statusSuccess with hst
  have hpos := hreach.pos
  rw [hstatus, Option.getD_some, zero_add]
  have hloop := handleLRSMLoop_statuses hbc _ st pad gs 0 k s hreach.pos hreach.le (by
    intro m hm
    rw [zero_add]
    exact getElem?_statusFrames_reached hlen hr st pad m hm)
  rw [zero_add] at hloop
  constructor
  · constructor
    · intro hok
      by_cases hfail : st &&& statusSuccess ≠ statusSuccess
      · rw [hloop, if_pos hfail] at hok
        exact absurd hok hfail
      · -- the hop that answered accepted, so it was the last one
        have hnone : outcome (k - 1) = none := (getD_statusSuccess_iff hcodes (k - 1)).mp (not_not.mp hfail)
        have hkn : k = gs.length := by
          by_contra hne'
          have := hreach.failed (by have := hreach.le; omega)
          rw [zero_add, hnone] at this
          exact Bool.false_ne_true this
        intro m hm
        by_cases hlast : m + 1 < k
        · simpa using hreach.forwarded m hlast
        · rwa [show m = k - 1 by omega]
    · intro hall
      have hkn : k = gs.length := by
        have := (hreach.lt_iff (m := gs.length - 1) (by omega)).mpr (fun j hj => by simpa using hall j (by omega))
        have := hreach.le
        omega
      have hok : st &&& statusSuccess = statusSuccess :=
        (getD_statusSuccess_iff hcodes (k - 1)).mpr (hall (k - 1) (by omega))
      rw [hloop, if_neg (not_not.mpr hok), hkn, List.drop_length, handleLRSMLoop]
      exact hok
  · intro m hm code hcode hfwd
    have hkm : k = m + 1 := hreach.eq_of_some hm (by simpa using hcode) (fun j hj => by simpa using hfwd j hj)
    have hstc : st = code := by rw [hst, hkm, Nat.add_sub_cancel, hcode, Option.getD_some]
    rw [hloop, if_pos (hstc ▸ hcodes m code hcode), hstc, hkm, Nat.add_sub_cancel]


end Answer


section Handshake

variable {bc : BuildCrypto} (inet : Inet6) (srvValid : SRVRecord → Bool)
  (decodeVersion1 : RouterContact → BufferM (Option RouterContact))

/-- The frames `AsyncGenerateKeys` randomizes, one of full size per index. -/
theorem length_randomFrames (random : Nat → AlignedBuffer encryptedFrameSize) :
    ∀ f ∈ (List.range maxLen).map (fun i => (random i).bytes), f.length = encryptedFrameSize := by
  intro f hf
  obtain ⟨i, -, rfl⟩ := List.mem_map.mp hf
  exact (random i).length_eq

/-- On a path of honest routers whose contacts fit, `AsyncGenerateKeys` returns. -/
theorem asyncGenerateKeys_isSome (hbc : bc.Ideal) (secretOf : RouterID → SecretKey)
    (rc : RouterContact) (rcs : List RouterContact) (ids : List (PathID × PathID))
    (keys : List (SecretKey × TunnelNonce × SecretKey)) (random : Nat → AlignedBuffer encryptedFrameSize)
    (hlen : rcs.length < maxLen) (hids : ids.length = rcs.length + 1) (hkeys : keys.length = rcs.length + 1)
    (hhon : ∀ c ∈ rc :: rcs, c.enckey = bc.seckeyToPublic (secretOf c.pubkey))
    (hcarry : ∀ c ∈ rcs, Carried inet c) :
    ∃ built, asyncGenerateKeys bc inet (Path.create (rc :: rcs) ids) keys random = some built := by
  obtain ⟨hop, rest, hhops, hmap⟩ := create_cons rc rcs ids hids
  have hrest : rest.map (·.rc) = rcs := (List.cons.inj hmap).2
  obtain ⟨gs, fs, hgen⟩ := generateKeys_isSome inet hbc secretOf (hop :: rest) keys _
    (by rw [hkeys, List.length_cons, ← hrest, List.length_map])
    (by simp only [List.length_map, List.length_range, List.length_cons]; rw [← hrest, List.length_map] at hlen; omega)
    (length_randomFrames random)
    (fun h hh => hhon h.rc (by rw [← hmap]; exact List.mem_map_of_mem hh))
    (fun h hh => hcarry h.rc (by rw [← hrest]; exact List.mem_map_of_mem hh))
  exact ⟨_, by rw [asyncGenerateKeys, hhops, hgen, Option.map_some]⟩

/-- On a path of honest routers, no two in a row the same, the commit the client builds goes from
router to router as `reached` says. -/
theorem forwardLRCM_create (hbc : bc.Ideal) (secretOf : RouterID → SecretKey)
    (outcome : Nat → Option UInt64) (fill : Nat → AlignedBuffer encryptedFrameSize)
    (rc : RouterContact) (rcs : List RouterContact) (ids : List (PathID × PathID))
    (keys : List (SecretKey × TunnelNonce × SecretKey)) (random : Nat → AlignedBuffer encryptedFrameSize)
    (us : RouterID) (hlen : rcs.length < maxLen) (hids : ids.length = rcs.length + 1)
    (hhon : ∀ c ∈ rc :: rcs, c.enckey = bc.seckeyToPublic (secretOf c.pubkey))
    (hcarry : ∀ c ∈ rcs, Carried inet c)
    (hnz : ∀ e ∈ ids, e.1 ≠ AlignedBuffer.zero 16 ∧ e.2 ≠ AlignedBuffer.zero 16)
    (hdistinct : (rc :: rcs).IsChain fun a b => a.pubkey ≠ b.pubkey)
    {built : Path × List (List UInt8)}
    (hbuilt : asyncGenerateKeys bc inet (Path.create (rc :: rcs) ids) keys random = some built) :
    forwardLRCM bc inet srvValid decodeVersion1 secretOf outcome fill maxLen 0 rc.pubkey us built.2 =
      reached bc outcome 0 us built.1.hops := by
  obtain ⟨hop, rest, hhops, hmap⟩ := create_cons rc rcs ids hids
  have hrest : rest.map (·.rc) = rcs := (List.cons.inj hmap).2
  have hrestlen : rest.length = rcs.length := by rw [← hrest, List.length_map]
  simp only [asyncGenerateKeys, hhops, Option.map_eq_some_iff] at hbuilt
  obtain ⟨⟨gs, fs⟩, hgen, rfl⟩ := hbuilt
  -- what the contacts promise, for the hops
  have hhon' : ∀ h ∈ hop :: rest, h.rc.enckey = bc.seckeyToPublic (secretOf h.rc.pubkey) :=
    fun h hh => hhon h.rc (by rw [← hmap]; exact List.mem_map_of_mem hh)
  have hvalid : ∀ h ∈ rest, (LRCommitRecord.Entry.nextRC h.rc).Valid :=
    fun h hh => (hcarry h.rc (by rw [← hrest]; exact List.mem_map_of_mem hh)).valid
  have hnz' : ∀ h ∈ hop :: rest, h.idsNonzero := hhops ▸ idsNonzero_create (rc :: rcs) ids hnz
  have hdistinct' : (hop :: rest).IsChain fun a b => a.rc.pubkey ≠ b.rc.pubkey := by
    rw [← hmap] at hdistinct
    exact (List.isChain_map (fun h : PathHopConfig => h.rc)).mp hdistinct
  have hfwd := forwardLRCM_generateKeys inet srvValid decodeVersion1 hbc secretOf outcome fill rest hop
    keys _ gs fs maxLen 0 us [] hgen (by omega) hhon' hvalid hnz' hdistinct'
  have hrc : hop.rc = rc := (List.cons.inj hmap).1
  rw [List.append_nil, hrc] at hfwd
  exact hfwd

/-- The client's hops are its contacts, with their ids chained. -/
theorem asyncGenerateKeys_hops {rcs : List RouterContact} {ids : List (PathID × PathID)}
    {keys : List (SecretKey × TunnelNonce × SecretKey)} {random : Nat → AlignedBuffer encryptedFrameSize}
    (hids : ids.length = rcs.length) {built : Path × List (List UInt8)}
    (hbuilt : asyncGenerateKeys bc inet (Path.create rcs ids) keys random = some built) :
    built.1.hops.map (·.rc) = rcs ∧ built.1.hops.IsChain fun a b => a.txID = b.rxID := by
  simp only [asyncGenerateKeys, Option.map_eq_some_iff] at hbuilt
  obtain ⟨⟨gs, fs⟩, hgen, rfl⟩ := hbuilt
  have hmap := map_generateKeys inet hgen
  constructor
  · have := congrArg (List.map Prod.fst) hmap
    simp only [List.map_map] at this
    exact this.trans (map_rc_create rcs ids hids)
  · have hc : ((Path.create rcs ids).hops.map fun g => (g.rc, g.txID, g.rxID)).IsChain
        fun a b => a.2.1 = b.2.2 := (List.isChain_map _).mpr (chain_chainIDs _)
    rw [← hmap] at hc
    exact (List.isChain_map _).mp hc

/-- Each router's `txID` is the next router's `rxID` when the client's hops are chained so. -/
theorem chain_reached (outcome : Nat → Option UInt64) (i : Nat) (us : RouterID) {gs : List PathHopConfig}
    (hc : gs.IsChain fun a b => a.txID = b.rxID) :
    ((reached bc outcome i us gs).1.map fun e => e.2.2).IsChain fun a b => a.info.txID = b.info.rxID := by
  have hids := map_reached bc (fun e => (e.2.2.info.txID, e.2.2.info.rxID)) (fun g => (g.txID, g.rxID))
    (fun _ _ _ => rfl) outcome i us gs
  have hc' : ((gs.take (reached bc outcome i us gs).1.length).map fun g => (g.txID, g.rxID)).IsChain
      fun a b => a.1 = b.2 := (List.isChain_map _).mpr (hc.take _)
  rw [← hids] at hc'
  exact (List.isChain_map _).mpr ((List.isChain_map _).mp hc')

theorem build_handshake_agreement (hbc : bc.Ideal) (secretOf : RouterID → SecretKey)
    (rc : RouterContact) (rcs : List RouterContact) (ids : List (PathID × PathID))
    (keys : List (SecretKey × TunnelNonce × SecretKey)) (random : Nat → AlignedBuffer encryptedFrameSize)
    (outcome : Nat → Option UInt64) (fill : Nat → AlignedBuffer encryptedFrameSize) (us : RouterID)
    (pad : Nat → AlignedBuffer encryptedFrameSize) (s : UInt64)
    (hlen : rcs.length < maxLen) (hids : ids.length = rcs.length + 1) (hkeys : keys.length = rcs.length + 1)
    (hhon : ∀ c ∈ rc :: rcs, c.enckey = bc.seckeyToPublic (secretOf c.pubkey))
    (hcarry : ∀ c ∈ rcs, Carried inet c)
    (hnz : ∀ e ∈ ids, e.1 ≠ AlignedBuffer.zero 16 ∧ e.2 ≠ AlignedBuffer.zero 16)
    (hcodes : ∀ i code, outcome i = some code → code &&& statusSuccess ≠ statusSuccess)
    (hdistinct : (rc :: rcs).IsChain fun a b => a.pubkey ≠ b.pubkey) :
    ∃ built, asyncGenerateKeys bc inet (Path.create (rc :: rcs) ids) keys random = some built ∧
      let r := forwardLRCM bc inet srvValid decodeVersion1 secretOf outcome fill maxLen 0 rc.pubkey us
        built.2
      let answer := built.1.handleLRSM bc s
        (statusFrames bc (r.2.getD statusSuccess) pad 0 (r.1.map fun e => e.2.2))
      r.1.map (fun e => (e.1, e.2.2.pathKey, e.2.2.nonceXOR)) =
          (built.1.hops.take r.1.length).map (fun g => (g.rc.pubkey, g.shared, g.nonceXOR)) ∧
        r.1.map (fun e => e.2.1) =
          ((commitRecords bc built.1.hops).take r.1.length).map LRCommitRecord.readBack ∧
        (r.1.map fun e => e.2.2).IsChain (fun a b => a.info.txID = b.info.rxID) ∧
        (∀ m ≤ rcs.length, m < r.1.length ↔ ∀ j < m, outcome j = none) ∧
        r.2.isSome ∧
        (answer.1 = true ↔ ∀ m ≤ rcs.length, outcome m = none) ∧
        ∀ m ≤ rcs.length, ∀ code, outcome m = some code → (∀ j < m, outcome j = none) →
          answer.2 = if code &&& failCongestion ≠ 0 ∧ m = 0 then some rc.pubkey
            else (rc :: rcs)[m + 1]?.map fun c => c.pubkey := by
  obtain ⟨built, hbuilt⟩ := asyncGenerateKeys_isSome inet hbc secretOf rc rcs ids keys random hlen hids
    hkeys hhon hcarry
  refine ⟨built, hbuilt, ?_⟩
  intro r answer
  have hr : reached bc outcome 0 us built.1.hops = r :=
    (forwardLRCM_create inet srvValid decodeVersion1 hbc secretOf outcome fill rc rcs ids keys random us
      hlen hids hhon hcarry hnz hdistinct hbuilt).symm
  have ha0 : answer = built.1.handleLRSM bc s
      (statusFrames bc (r.2.getD statusSuccess) pad 0 (r.1.map fun e => e.2.2)) := rfl
  obtain ⟨hrc, hchain⟩ := asyncGenerateKeys_hops inet hids hbuilt
  clear_value answer r
  set gs := built.1.hops with hgs
  have hgslen : gs.length = rcs.length + 1 := by
    rw [← List.length_map (f := fun h : PathHopConfig => h.rc), hrc]
    rfl
  have hne : gs ≠ [] := List.ne_nil_of_length_pos (by omega)
  have hreach := reach_reached bc outcome 0 us gs hne
  rw [hr, hgslen] at hreach
  have hanswer := handleLRSMLoop_reached hbc hcodes hne (by omega) hr pad s
  rw [ha0, Path.handleLRSM]
  refine ⟨?_, ?_, ?_, ?_, ?_, ?_, ?_⟩
  · -- each router keys its hop as the client did
    rw [← hr]
    exact map_reached bc _ _ (fun _ _ _ => rfl) outcome 0 us gs
  · -- and holds the record the client wrote for it, as `BDecode` reads it back
    rw [← hr]
    exact records_reached bc outcome 0 us gs
  · rw [← hr]
    exact chain_reached outcome 0 us hchain
  · intro m hm
    simpa using hreach.lt_iff (m := m) (by omega)
  · rw [← hr, reached_status bc outcome 0 us gs hne]
    rfl
  · rw [decide_eq_true_iff, hanswer.1, hgslen]
    exact ⟨fun h m hm => h m (by omega), fun h m hm => h m (by omega)⟩
  · intro m hm code hcode hfwd
    rw [hanswer.2 m (by omega) code hcode hfwd]
    -- the client's hops are the contacts it was given
    have hblame : ∀ j : Nat, gs[j]?.map (fun h : PathHopConfig => h.rc.pubkey) =
        (rc :: rcs)[j]?.map fun c : RouterContact => c.pubkey := by
      intro j
      rw [← hrc, List.getElem?_map, Option.map_map]
      rfl
    split_ifs with hcong
    · rw [hcong.2, hblame]
      rfl
    · exact hblame (m + 1)

end Handshake

/-! ### A cryptography that meets the assumptions -/

section Symbolic

open Lokinet.Proofs.Router
open Lokinet.Proofs.Router.RouterContact (letterInet)

/-- `n + 1` bytes, the first one `b`. -/
def headByte (n : Nat) (b : UInt8) : AlignedBuffer (n + 1) := ⟨b :: List.replicate n 0, by simp⟩

/-- The public key of a secret key: its first byte, then zeros. -/
def symbolicPublic (sk : SecretKey) : PubKey := headByte 31 (sk.bytes.headD 0)

/-- A frame routine that seals with a 32-byte tag over the front of the frame and opens what
carries the tag, as the MAC the frame routines check. -/
def tagFrame (tag : AlignedBuffer 32) (frame : List UInt8) : Bool × List UInt8 :=
  (true, tag.bytes ++ frame.drop 32)

def checkTag (tag : AlignedBuffer 32) (frame : List UInt8) : Bool × List UInt8 :=
  (decide (frame.take 32 = tag.bytes), frame)

theorem decrypts_tag (tag : AlignedBuffer 32) : Decrypts (tagFrame tag) (checkTag tag) := by
  intro frame
  refine ⟨rfl, ?_, ?_⟩
  · simp [tagFrame, checkTag, tag.length_eq]
  · simp [tagFrame, checkTag, List.drop_append, tag.length_eq, encryptedFrameOverheadSize]

/-- A cryptography that meets `BuildCrypto.Ideal`: a public key is the secret key's first byte,
the key exchange XORs both public keys and the nonce, and a frame is sealed with the key it opens
under as its tag. -/
def symbolicCrypto : BuildCrypto where
  seckeyToPublic := symbolicPublic
  dhClient pk sk nonce := some ((pk ^^^ symbolicPublic sk) ^^^ nonce)
  dhServer pk sk nonce := some ((symbolicPublic sk ^^^ pk) ^^^ nonce)
  shorthash k := k
  encryptInPlace _ := tagFrame
  decryptInPlace sk := checkTag (symbolicPublic sk)
  doEncrypt := tagFrame
  doDecrypt := checkTag

theorem symbolicCrypto_ideal : symbolicCrypto.Ideal where
  dh_agree _ _ _ := ⟨_, rfl, rfl⟩
  decrypts_commit _ esk := decrypts_tag (symbolicPublic esk)
  decrypts_status k := decrypts_tag k

/-- The router whose keys start with `b`, and the secret key it holds. -/
def routerOf (b : UInt8) : RouterContact :=
  { RouterContact.fresh with pubkey := headByte 31 b, enckey := headByte 31 b }

def secretKeyOf (r : RouterID) : SecretKey := headByte 63 (r.bytes.headD 0)

theorem routerOf_honest (b : UInt8) :
    (routerOf b).enckey = symbolicCrypto.seckeyToPublic (secretKeyOf (routerOf b).pubkey) := rfl

set_option maxRecDepth 8000 in
/-- Routers `1` and `2` can be passed on: their contacts read back, and a record carrying one fits
in a frame's body. -/
theorem carried_routerOf {b : UInt8} (hb : b = 1 ∨ b = 2) : Carried letterInet (routerOf b) := by
  have hnet : NulPadded (routerOf b).netID := by
    show NulPadded RouterContact.fresh.netID
    unfold NulPadded
    decide
  have hnick : NulPadded (routerOf b).nickname := by
    show NulPadded RouterContact.fresh.nickname
    unfold NulPadded
    decide
  refine ⟨⟨rfl, hnet, hnick, fun ai hai => absurd hai List.not_mem_nil⟩, ?_⟩
  rcases hb with rfl | rfl <;> decide

/-- Path ids for two hops, none zero. -/
def twoHopIds : List (PathID × PathID) :=
  [(headByte 15 1, headByte 15 2), (headByte 15 3, headByte 15 4)]

/-- The key, nonce and frame key `GenerateNextKey` draws for each of two hops. -/
def twoHopKeys : List (SecretKey × TunnelNonce × SecretKey) :=
  [(headByte 63 5, headByte 31 6, headByte 63 10), (headByte 63 7, headByte 31 8, headByte 63 11)]

/-- `Randomize` leaving a frame zero. -/
def zeroFrames (_ : Nat) : AlignedBuffer encryptedFrameSize := AlignedBuffer.zero encryptedFrameSize

/-- The second router turns the build down as congested. -/
def congestedSecond (i : Nat) : Option UInt64 := if i = 1 then some failCongestion else none

theorem congestedSecond_fails (i : Nat) (code : UInt64) (h : congestedSecond i = some code) :
    code &&& statusSuccess ≠ statusSuccess := by
  unfold congestedSecond at h
  split_ifs at h
  cases h
  decide

theorem build_handshake_agreement_two_hops :
    [routerOf 2].length < maxLen ∧ twoHopIds.length = [routerOf 2].length + 1 ∧
      twoHopKeys.length = [routerOf 2].length + 1 ∧
      (∀ c ∈ [routerOf 1, routerOf 2], c.enckey = symbolicCrypto.seckeyToPublic (secretKeyOf c.pubkey)) ∧
      (∀ c ∈ [routerOf 2], Carried letterInet c) ∧
      (∀ e ∈ twoHopIds, e.1 ≠ AlignedBuffer.zero 16 ∧ e.2 ≠ AlignedBuffer.zero 16) ∧
      (∀ i code, congestedSecond i = some code → code &&& statusSuccess ≠ statusSuccess) ∧
      [routerOf 1, routerOf 2].IsChain (fun a b => a.pubkey ≠ b.pubkey) ∧
      ∃ built, asyncGenerateKeys symbolicCrypto letterInet (Path.create [routerOf 1, routerOf 2] twoHopIds)
          twoHopKeys zeroFrames = some built ∧
        let r := forwardLRCM symbolicCrypto letterInet (fun _ => true) (fun _ => pure none) secretKeyOf
          congestedSecond zeroFrames maxLen 0 (routerOf 1).pubkey (headByte 31 9) built.2
        let answer := built.1.handleLRSM symbolicCrypto statusSuccess
          (statusFrames symbolicCrypto (r.2.getD statusSuccess) zeroFrames 0 (r.1.map fun e => e.2.2))
        r.1.map (fun e => (e.1, e.2.2.pathKey, e.2.2.nonceXOR)) =
            (built.1.hops.take r.1.length).map (fun g => (g.rc.pubkey, g.shared, g.nonceXOR)) ∧
          r.1.map (fun e => e.2.1) =
            ((commitRecords symbolicCrypto built.1.hops).take r.1.length).map LRCommitRecord.readBack ∧
          (r.1.map fun e => e.2.2).IsChain (fun a b => a.info.txID = b.info.rxID) ∧
          (∀ m ≤ [routerOf 2].length, m < r.1.length ↔ ∀ j < m, congestedSecond j = none) ∧
          r.2.isSome ∧
          (answer.1 = true ↔ ∀ m ≤ [routerOf 2].length, congestedSecond m = none) ∧
          ∀ m ≤ [routerOf 2].length, ∀ code, congestedSecond m = some code →
            (∀ j < m, congestedSecond j = none) →
            answer.2 = if code &&& failCongestion ≠ 0 ∧ m = 0 then some (routerOf 1).pubkey
              else [routerOf 1, routerOf 2][m + 1]?.map fun c => c.pubkey := by
  have hhon : ∀ c ∈ [routerOf 1, routerOf 2],
      c.enckey = symbolicCrypto.seckeyToPublic (secretKeyOf c.pubkey) := by
    simp only [List.mem_cons, List.not_mem_nil, or_false]
    rintro c (rfl | rfl) <;> exact routerOf_honest _
  have hcarry : ∀ c ∈ [routerOf 2], Carried letterInet c := by
    simp only [List.mem_singleton]
    rintro c rfl
    exact carried_routerOf (Or.inr rfl)
  have hnz : ∀ e ∈ twoHopIds, e.1 ≠ AlignedBuffer.zero 16 ∧ e.2 ≠ AlignedBuffer.zero 16 := by decide
  have hdistinct : [routerOf 1, routerOf 2].IsChain fun a b => a.pubkey ≠ b.pubkey :=
    List.IsChain.cons_cons (by decide) (List.isChain_singleton _)
  exact ⟨by decide, rfl, rfl, hhon, hcarry, hnz, congestedSecond_fails, hdistinct,
    build_handshake_agreement letterInet (fun _ => true) (fun _ => pure none) symbolicCrypto_ideal
      secretKeyOf (routerOf 1) [routerOf 2] twoHopIds twoHopKeys zeroFrames congestedSecond zeroFrames
      (headByte 31 9) zeroFrames statusSuccess (by decide) rfl rfl hhon hcarry hnz congestedSecond_fails
      hdistinct⟩

/-- Under the symbolic cryptography a keyed hop shares the XOR of its router's key, the public key
of the key drawn and the nonce. -/
theorem Keyed.shared_symbolic {hop : PathHopConfig} {next : Option PathHopConfig} {g : PathHopConfig}
    (hk : Keyed symbolicCrypto hop next g) :
    g.shared = (hop.rc.enckey ^^^ symbolicPublic g.commkey) ^^^ g.nonce := by
  have h := hk.shared
  rw [hk.rc] at h
  exact (Option.some.inj h).symm

/-- A zero frame carries no tag a key of the symbolic cryptography opens but the zero key. -/
theorem openStatusFrame_defaultFrame {k : SharedSecret} (hk : defaultFrame.take 32 ≠ k.bytes) :
    openStatusFrame symbolicCrypto k (some defaultFrame) = .error failDecryptError := by
  simp [openStatusFrame, symbolicCrypto, checkTag, hk]

theorem build_handshake_same_router_twice :
    ∃ built, asyncGenerateKeys symbolicCrypto letterInet (Path.create [routerOf 1, routerOf 1] twoHopIds)
        twoHopKeys zeroFrames = some built ∧
      let r := forwardLRCM symbolicCrypto letterInet (fun _ => true) (fun _ => pure none) secretKeyOf
        (fun _ => none) zeroFrames maxLen 0 (routerOf 1).pubkey (headByte 31 9) built.2
      r.1.length = 1 ∧
        (built.1.handleLRSM symbolicCrypto statusSuccess
          (statusFrames symbolicCrypto (r.2.getD statusSuccess) zeroFrames 0 (r.1.map fun e => e.2.2))).1 =
          false := by
  have hhon : ∀ c ∈ [routerOf 1, routerOf 1],
      c.enckey = symbolicCrypto.seckeyToPublic (secretKeyOf c.pubkey) := by
    simp only [List.mem_cons, List.not_mem_nil, or_false, or_self]
    rintro c rfl
    exact routerOf_honest 1
  have hcarry : ∀ c ∈ [routerOf 1], Carried letterInet c := by
    simp only [List.mem_singleton]
    rintro c rfl
    exact carried_routerOf (Or.inl rfl)
  obtain ⟨built, hbuilt⟩ := asyncGenerateKeys_isSome letterInet symbolicCrypto_ideal secretKeyOf
    (routerOf 1) [routerOf 1] twoHopIds twoHopKeys zeroFrames (by decide) rfl rfl hhon hcarry
  refine ⟨built, hbuilt, ?_⟩
  -- the two hops the client keyed, both on router `1`
  obtain ⟨hop, rest, hhops, hmap⟩ := create_cons (routerOf 1) [routerOf 1] twoHopIds rfl
  obtain ⟨hop', rfl⟩ : ∃ hop', rest = [hop'] := by
    have hlen := congrArg List.length hmap
    simp only [List.length_map, List.length_cons, List.length_nil] at hlen
    exact List.length_eq_one_iff.mp (by omega)
  simp only [List.map_cons, List.map_nil, List.cons.injEq, and_true] at hmap
  obtain ⟨hrc, hrc'⟩ := hmap
  have hnz : hop.idsNonzero := idsNonzero_create [routerOf 1, routerOf 1] twoHopIds (by decide) hop
    (by rw [hhops]; exact List.mem_cons_self)
  simp only [asyncGenerateKeys, hhops, Option.map_eq_some_iff] at hbuilt
  obtain ⟨⟨gs, fs⟩, hgen, rfl⟩ := hbuilt
  obtain ⟨g, f, gs', fs', keys', frames', hk, hsealed, ⟨fk, hkeys⟩, hrest, rfl, rfl⟩ :=
    generateKeys_cons_eq_some letterInet hgen
  obtain ⟨g', f', gs'', fs'', keys'', frames'', hk', -, ⟨fk', hkeys'⟩, hrest', rfl, rfl⟩ :=
    generateKeys_cons_eq_some letterInet hrest
  simp only [generateKeys, Option.some.injEq, Prod.mk.injEq] at hrest'
  obtain ⟨rfl, rfl⟩ := hrest'
  -- the second hop's key, from the draws
  simp only [twoHopKeys, List.cons.injEq] at hkeys
  obtain ⟨-, rfl⟩ := hkeys
  simp only [List.cons.injEq, Prod.mk.injEq] at hkeys'
  obtain ⟨⟨hck, hnonce, -⟩, -⟩ := hkeys'
  have hopen : defaultFrame.take 32 ≠ g'.shared.bytes := by
    rw [hk'.shared_symbolic, hrc', ← hck, ← hnonce]
    decide
  -- router `1` is named as the next hop of its own hop, and answers as the farthest
  have hkey : hop.rc.enckey = symbolicCrypto.seckeyToPublic (secretKeyOf hop.rc.pubkey) := by
    rw [hrc]
    exact routerOf_honest 1
  have hnext : ∀ rc ∈ [hop'].head?.map (·.rc), (LRCommitRecord.Entry.nextRC rc).Valid := by
    intro rc hmem
    obtain rfl : hop'.rc = rc := by simpa using hmem
    rw [hrc']
    exact (carried_routerOf (Or.inl rfl)).valid
  have hup : g.upstream = hop.rc.pubkey := by simp [hk.upstream, hrc, hrc']
  have hfwd := forwardLRCM_farthest letterInet (fun _ => true) (fun _ => pure none) symbolicCrypto_ideal
    (fun _ => none) zeroFrames hk hkey hnz hnext hsealed hup 7 0 (headByte 31 9) (f' :: frames'')
  rw [hrc] at hfwd
  dsimp only
  rw [show maxLen = 7 + 1 from rfl, hfwd]
  refine ⟨rfl, ?_⟩
  -- the client reads `SUCCESS` from the first hop, and padding for the second
  have hf0 : (statusFrames symbolicCrypto statusSuccess zeroFrames 0 [transitOf g (headByte 31 9)])[0]? =
      some (statusFrame symbolicCrypto g.shared statusSuccess (zeroFrames 0).bytes) := rfl
  have hf1 : (statusFrames symbolicCrypto statusSuccess zeroFrames 0 [transitOf g (headByte 31 9)])[1]? =
      some defaultFrame := rfl
  simp only [Option.getD_none, Option.getD_some, Path.handleLRSM, List.map_cons, List.map_nil]
  rw [handleLRSMLoop_cons_statusFrame symbolicCrypto_ideal hf0, if_neg (by simp),
    handleLRSMLoop, hf1, openStatusFrame_defaultFrame hopen]
  show decide (failDecryptError &&& statusSuccess = statusSuccess) = false
  decide

end Symbolic

end Lokinet.Path
