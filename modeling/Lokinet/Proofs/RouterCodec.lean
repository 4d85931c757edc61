import Lokinet.Proofs.AddressCodec

/-!
A version-0 `RouterContact` through `BEncode` and `BDecode`. The signed section is the dict of
the entries `a i k n p r u v x z`, `n` only for a nickname and `r` only for a router version,
and `BDecode` reads each entry back into a cleared contact. Addresses come back with their
dialects cut at the first NUL: a contact whose dialects hold no NUL comes back as it was, up to
what version 0 does not write, and then encodes to the same bytes and checks its signature
the same way. One whose dialect holds a NUL does not.
-/

namespace Lokinet.Proofs.Router

open Lokinet.Util Lokinet.Net Lokinet.Router FaultState LlarpBuffer Lokinet.Proofs.Bencode

namespace RouterContact

/-- The entries of the dict `BEncodeSignedSection` writes for a version-0 contact. -/
inductive Entry where
  | addrs (l : List AddressInfo)
  | netID (n : AlignedBuffer 8)
  | pubkey (k : AlignedBuffer 32)
  | nickname (n : AlignedBuffer 32)
  | enckey (k : AlignedBuffer 32)
  | routerVersion (r : RouterVersion)
  | lastUpdated (t : UInt64)
  | version (v : UInt64)
  | exits
  | signature (s : AlignedBuffer 64)

namespace Entry

def key : Entry → List UInt8
  | addrs _ => ascii "a"
  | netID _ => ascii "i"
  | pubkey _ => ascii "k"
  | nickname _ => ascii "n"
  | enckey _ => ascii "p"
  | routerVersion _ => ascii "r"
  | lastUpdated _ => ascii "u"
  | version _ => ascii "v"
  | exits => ascii "x"
  | signature _ => ascii "z"

/-- The wire form of the value. `NetID` and the nickname go as their C strings, and the exit
list is always empty. -/
def enc (inet : Inet6) : Entry → List UInt8
  | addrs l => 108 :: ((l.map (AddressInfo.enc inet)).flatten ++ [101])
  | netID n => bytestringEnc n.cstr
  | pubkey k => bytestringEnc k.bytes
  | nickname n => bytestringEnc n.cstr
  | enckey k => bytestringEnc k.bytes
  | routerVersion r => RouterVersion.enc r
  | lastUpdated t => integerEnc t
  | version v => integerEnc v
  | exits => [108, 101]
  | signature s => bytestringEnc s.bytes

/-- The writer calls `BEncodeSignedSection` makes for the entry, key first. -/
def writers (inet : Inet6) : Entry → List (BufferM Bool)
  | addrs l =>
    [bencodeWriteBytestring (ascii "a"), bEncodeWriteList (l.map (AddressInfo.bEncode inet))]
  | netID n => [bencodeWriteBytestring (ascii "i"), bencodeWriteBytestring n.cstr]
  | pubkey k => [bencodeWriteBytestring (ascii "k"), k.bEncode]
  | nickname n => [bencodeWriteBytestring (ascii "n"), bencodeWriteBytestring n.cstr]
  | enckey k => [bencodeWriteBytestring (ascii "p"), k.bEncode]
  | routerVersion r => [bencodeWriteBytestring (ascii "r"), r.bEncode]
  | lastUpdated t => [bencodeWriteBytestring (ascii "u"), bencodeWriteUint64 t]
  | version v => [bencodeWriteUint64Entry (ascii "v") v]
  | exits => [bencodeWriteBytestring (ascii "x"), bEncodeWriteList []]
  | signature s => [bencodeWriteBytestring (ascii "z"), s.bEncode]

/-- What `DecodeKey` does with the entry; `BEncodeReadList` appends the addresses. -/
def step (rc : RouterContact) : Entry → RouterContact
  | addrs l => { rc with addrs := rc.addrs ++ l.map AddressInfo.normalize }
  | netID n => { rc with netID := n }
  | pubkey k => { rc with pubkey := k }
  | nickname n => { rc with nickname := n }
  | enckey k => { rc with enckey := k }
  | routerVersion r => { rc with routerVersion := some r }
  | lastUpdated t => { rc with lastUpdated := t }
  | version v => { rc with version := v }
  | exits => rc
  | signature s => { rc with signature := s }

/-- What `DecodeKey` needs of the entry to read it back. -/
def Valid : Entry → Prop
  | addrs l => ∀ ai ∈ l, AddressInfo.WellFormed ai
  | netID n => NulPadded n
  | nickname n => NulPadded n
  | _ => True

theorem length_key (x : Entry) : x.key.length = 1 := by
  cases x <;> rfl

theorem emits_writers (inet : Inet6) (x : Entry) :
    Emits (writeSeq (x.writers inet)) (entryEnc key (enc inet) x) := by
  cases x with
  | addrs l =>
    exact Emits.pair
      (clean_bEncodeWriteList fun ai _ => (AddressInfo.clean_bEncode inet ai).emits).emits _
  | netID n => exact Emits.pair (emits_bencodeWriteBytestring _) _
  | pubkey k => exact Emits.pair (emits_bencodeWriteBytestring _) _
  | nickname n => exact Emits.pair (emits_bencodeWriteBytestring _) _
  | enckey k => exact Emits.pair (emits_bencodeWriteBytestring _) _
  | routerVersion r => exact Emits.pair (RouterVersion.clean_bEncode r).emits _
  | lastUpdated t => exact Emits.pair (clean_bencodeWriteUint64 t).emits _
  | version v => exact Emits.singleton (emits_bencodeWriteUint64Entry _ _)
  | exits => exact Emits.pair (BValue.emits_writers (.list [])) _
  | signature s => exact Emits.pair (emits_bencodeWriteBytestring _) _

theorem puts_writers (inet : Inet6) (x : Entry) :
    Puts (writeSeq (x.writers inet)) (entryEnc key (enc inet) x) := by
  cases x with
  | addrs l =>
    exact Puts.pair (puts_bEncodeWriteList fun ai _ => AddressInfo.puts_bEncode inet ai) _
  | netID n => exact Puts.pair (puts_bencodeWriteBytestring _) _
  | pubkey k => exact Puts.pair (puts_bencodeWriteBytestring _) _
  | nickname n => exact Puts.pair (puts_bencodeWriteBytestring _) _
  | enckey k => exact Puts.pair (puts_bencodeWriteBytestring _) _
  | routerVersion r => exact Puts.pair (RouterVersion.puts_bEncode r) _
  | lastUpdated t => exact Puts.pair (puts_bencodeWriteUint64 t) _
  | version v => exact Puts.singleton (puts_bencodeWriteUint64Entry _ _)
  | exits => exact Puts.pair (Puts.container 108 Puts.nil) _
  | signature s => exact Puts.pair (puts_bencodeWriteBytestring _) _

end Entry

/-- The entries of a version-0 contact, in the order `BEncodeSignedSection` writes them. -/
def entries (rc : RouterContact) : List Entry :=
  [.addrs rc.addrs, .netID rc.netID, .pubkey rc.pubkey] ++
    (if rc.nick ≠ [] then [.nickname rc.nickname] else []) ++ [.enckey rc.enckey] ++
    (rc.routerVersion.elim [] fun r => [.routerVersion r]) ++
    [.lastUpdated rc.lastUpdated, .version rc.version, .exits, .signature rc.signature]

/-- The bytes `BEncode` means to write for a version-0 contact. -/
def enc (inet : Inet6) (rc : RouterContact) : List UInt8 :=
  100 :: (((entries rc).map (entryEnc Entry.key (Entry.enc inet))).flatten ++ [101])

variable (inet : Inet6) (srvValid : SRVRecord → Bool)
  (decodeVersion1 : RouterContact → BufferM (Option RouterContact))

theorem bEncode_eq {rc : RouterContact} (hv : rc.version = 0) :
    rc.bEncode inet =
      writeSeq (bencodeStartDict :: ((entries rc).flatMap (Entry.writers inet) ++ [bencodeEnd])) := by
  unfold RouterContact.bEncode RouterContact.bEncodeSignedSection
  -- the entries a version-0 contact writes depend on its nickname and its router version
  by_cases hn : rc.nickname.cstr = [] <;> cases hr : rc.routerVersion <;>
    simp [hv, hn, hr, entries, Entry.writers, RouterContact.serializeExit, RouterContact.nick]

/-- A successful `BEncode` of a version-0 contact wrote its entries between `d` and `e`. -/
theorem clean_bEncode {rc : RouterContact} (hv : rc.version = 0) :
    Clean (rc.bEncode inet) (enc inet rc) := by
  rw [bEncode_eq inet hv]
  exact BValue.clean_container (Emits.flatMap fun x _ => Entry.emits_writers inet x)

/-- On a zeroed buffer with room, `BEncode` of a version-0 contact succeeds and writes its
entries between `d` and `e`. -/
theorem puts_bEncode {rc : RouterContact} (hv : rc.version = 0) :
    Puts (rc.bEncode inet) (enc inet rc) := by
  rw [bEncode_eq inet hv]
  exact Puts.container 100 (Puts.flatMap fun x _ => Entry.puts_writers inet x)

/-- `RouterContact::DecodeKey` reads each entry `BEncodeSignedSection` writes: the keys are
distinct letters, so exactly one test of the chain holds. -/
theorem readsEntry {x : Entry} (hx : x.Valid) :
    ReadsEntry (RouterContact.decodeKey inet srvValid) Entry.key (Entry.enc inet) Entry.step x := by
  refine ⟨by rw [Entry.length_key]; decide, fun acc b rest h => ?_⟩
  cases x with
  | addrs l =>
    have hd : b.mem.drop b.cur =
        108 :: ((l.map (AddressInfo.enc inet)).flatten ++ 101 :: rest) := by
      simpa [Entry.enc] using h
    have hread : bEncodeReadList (AddressInfo.bDecode inet AddressInfo.empty) acc.addrs b =
        some (some (acc.addrs ++ l.map AddressInfo.normalize),
          { b with cur := b.cur + (l.map (AddressInfo.enc inet)).flatten.length + 2 }) :=
      bEncodeReadList_of_drop (fun ai _ => AddressInfo.enc_head inet ai)
        (fun ai hai b rest hb => AddressInfo.bDecode_of_drop inet (hx ai hai) AddressInfo.empty hb) hd
    simp +decide only [RouterContact.decodeKey, Entry.key, ↓reduceIte]
    simp [bind_of_some hread, Entry.step, Entry.enc, Nat.add_assoc]
  | netID n =>
    simp +decide only [RouterContact.decodeKey, Entry.key, ↓reduceIte]
    simp [bind_of_some (NulPadded.bDecodePrefix_of_drop hx (by decide) h), Entry.step, Entry.enc]
  | pubkey k =>
    simp +decide only [RouterContact.decodeKey, Entry.key, ↓reduceIte]
    simp [bind_of_some (AlignedBuffer.bDecode_of_drop (by decide) h), Entry.step, Entry.enc]
  | nickname n =>
    simp +decide only [RouterContact.decodeKey, Entry.key, ↓reduceIte]
    simp [bind_of_some (NulPadded.bDecodePrefix_of_drop hx (by decide) h), Entry.step, Entry.enc]
  | enckey k =>
    simp +decide only [RouterContact.decodeKey, Entry.key, ↓reduceIte]
    simp [bind_of_some (AlignedBuffer.bDecode_of_drop (by decide) h), Entry.step, Entry.enc]
  | routerVersion r =>
    simp +decide only [RouterContact.decodeKey, Entry.key, ↓reduceIte]
    simp [bind_of_some (RouterVersion.bDecode_of_drop r h), Entry.step, Entry.enc]
  | lastUpdated t =>
    simp +decide only [RouterContact.decodeKey, Entry.key, ↓reduceIte]
    simp [bind_of_some (bencodeReadInteger_of_drop h), Entry.step, Entry.enc]
  | version v =>
    simp +decide only [RouterContact.decodeKey, Entry.key, ↓reduceIte]
    simp [bind_of_some (bencodeReadInteger_of_drop h), Entry.step, Entry.enc]
  | exits =>
    -- the empty exit list is skipped by `bencode_discard`
    have hskip := bencodeDiscard_of_drop (v := .list []) (by decide) h
    simp +decide only [RouterContact.decodeKey, ↓reduceIte]
    simp [bind_of_some hskip, Entry.step, Entry.enc, BValue.enc, BValue.encList]
  | signature s =>
    simp +decide only [RouterContact.decodeKey, Entry.key, ↓reduceIte]
    simp [bind_of_some (AlignedBuffer.bDecode_of_drop (by decide) h), Entry.step, Entry.enc]

theorem valid_entries {rc : RouterContact} (hnet : NulPadded rc.netID)
    (hnick : NulPadded rc.nickname) (haddrs : ∀ ai ∈ rc.addrs, AddressInfo.WellFormed ai) :
    ∀ x ∈ entries rc, x.Valid := by
  intro x hx
  cases x with
  | addrs l =>
    obtain rfl : l = rc.addrs := by
      cases hr : rc.routerVersion <;> simpa [entries, hr] using hx
    exact haddrs
  | netID n =>
    obtain rfl : n = rc.netID := by
      cases hr : rc.routerVersion <;> simpa [entries, hr] using hx
    exact hnet
  | nickname n =>
    obtain rfl : n = rc.nickname := by
      cases hr : rc.routerVersion <;> simp [entries, hr] at hx <;> exact hx.2
    exact hnick
  | _ => trivial

/-- Reading the entries of `rc` into a cleared contact gives `rc` back, with its addresses
normalized and the fields version 0 does not write left as `Clear()` left them. -/
theorem foldl_step_entries (rc r₀ : RouterContact) (hnick : NulPadded rc.nickname) :
    (entries rc).foldl Entry.step r₀.clear =
      { rc with addrs := rc.addrs.map AddressInfo.normalize, signedBtDict := r₀.signedBtDict,
                srvRecords := [] } := by
  by_cases hn : rc.nickname.cstr = []
  · -- no `n` entry: the nickname stays zeroed, which is what a padded empty string is
    have hz := hnick.eq_zero hn
    have hzc : (AlignedBuffer.zero 32).cstr = [] := hz ▸ hn
    cases hr : rc.routerVersion <;>
      simp [entries, RouterContact.nick, hzc, hr, hz, Entry.step, RouterContact.clear]
  · cases hr : rc.routerVersion <;>
      simp [entries, RouterContact.nick, hn, hr, Entry.step, RouterContact.clear]

/-- `RouterContact::BDecode` reads a version-0 contact back from what `BEncode` wrote, into any
contact it starts from. -/
theorem bDecode_of_drop (rc r₀ : RouterContact) (hnet : NulPadded rc.netID)
    (hnick : NulPadded rc.nickname) (haddrs : ∀ ai ∈ rc.addrs, AddressInfo.WellFormed ai)
    {b : LlarpBuffer} {rest : List UInt8} (h : b.mem.drop b.cur = enc inet rc ++ rest) :
    r₀.bDecode inet srvValid decodeVersion1 b =
      some (some { rc with addrs := rc.addrs.map AddressInfo.normalize,
                           signedBtDict := r₀.signedBtDict, srvRecords := [] },
        { b with cur := b.cur + (enc inet rc).length }) := by
  have hd : b.mem.drop b.cur =
      100 :: (((entries rc).map (entryEnc Entry.key (Entry.enc inet))).flatten ++ 101 :: rest) := by
    simpa [enc] using h
  have hread : bencodeReadDict (RouterContact.decodeKey inet srvValid) (fun acc => pure (some acc))
      r₀.clear b = some (some ((entries rc).foldl Entry.step r₀.clear), { b with cur := b.cur +
        ((entries rc).map (entryEnc Entry.key (Entry.enc inet))).flatten.length + 2 }) :=
    bencodeReadDict_of_drop
      (fun x hx => readsEntry inet srvValid (valid_entries hnet hnick haddrs x hx)) hd
  simp only [RouterContact.bDecode, bind_of_some (deref_of_drop hd), ↓reduceIte,
    bencodeDecodeDict, hread, foldl_step_entries rc r₀ hnick, enc, List.length_cons,
    List.length_append]
  congr 3

/-- The encoding of a version-0 contact is that of its entries: what it does not write, its
signed dict and its SRV records, plays no part. -/
theorem bEncode_congr {rc rc' : RouterContact} (hv : rc.version = 0) (hv' : rc'.version = 0)
    (h : entries rc = entries rc') : rc.bEncode inet = rc'.bEncode inet := by
  rw [bEncode_eq inet hv, bEncode_eq inet hv', h]

theorem verifySignature_unsigned (verify : AlignedBuffer 32 → List UInt8 → AlignedBuffer 64 → Bool)
    (rc : RouterContact) (hv : rc.version = 0) (d : List UInt8) (srv : List SRVRecord) :
    ({ rc with signedBtDict := d, srvRecords := srv } : RouterContact).verifySignature inet verify =
      rc.verifySignature inet verify := by
  -- the copies with the signature zeroed differ only in what version 0 does not write
  have hcopy : RouterContact.bEncode inet ⟨rc.addrs, rc.netID, rc.enckey, rc.pubkey,
        AlignedBuffer.zero 64, rc.nickname, rc.lastUpdated, 0, rc.routerVersion, d, srv⟩ =
      RouterContact.bEncode inet ⟨rc.addrs, rc.netID, rc.enckey, rc.pubkey, AlignedBuffer.zero 64,
        rc.nickname, rc.lastUpdated, 0, rc.routerVersion, rc.signedBtDict, rc.srvRecords⟩ :=
    bEncode_congr inet rfl rfl rfl
  simp only [RouterContact.verifySignature, hv, hcopy, ↓reduceIte]

/-- A version-0 contact is checked against the encoding of its copy with the signature zeroed,
whenever that encoding fits in `MAX_RC_SIZE` with a byte to spare. -/
theorem verifySignature_of_fits (verify : AlignedBuffer 32 → List UInt8 → AlignedBuffer 64 → Bool)
    (rc : RouterContact) (hv : rc.version = 0)
    (hfit : (enc inet { rc with signature := AlignedBuffer.zero 64 }).length <
      Lokinet.Router.RouterContact.maxRcSize) :
    rc.verifySignature inet verify =
      some (verify rc.pubkey (enc inet { rc with signature := AlignedBuffer.zero 64 }) rc.signature) := by
  have hcopy : ({ rc with signature := AlignedBuffer.zero 64 } : RouterContact).version = 0 := hv
  have hput := (puts_bEncode inet hcopy).ofBytes hfit
  rw [RouterContact.verifySignature, if_pos hv]
  simp [hput]

theorem normalize_of_nul_free {ai : AddressInfo} (h : 0 ∉ ai.dialect) :
    AddressInfo.normalize ai = ai := by
  have htake : ai.dialect.takeWhile (fun c => !decide (c = 0)) = ai.dialect :=
    List.takeWhile_eq_self_iff.mpr fun c hc => by
      have hne : c ≠ 0 := fun h0 => h (h0 ▸ hc)
      simpa using hne
  simp [AddressInfo.normalize, htake]

/-- A version-0 contact written by `BEncode` is read back by `BDecode`, from where the writing
began and into any contact, as it was up to its signed dict and its SRV records, which version 0
does not write; the contact read back encodes as the original does and checks its signature the
same way. Its NetID and nickname are C strings padded with NULs, and its addresses have rank and
port at least 1 and a dialect of fewer than 128 bytes, none of them NUL. -/
theorem bEncode_bDecode_round_trip
    (verify : AlignedBuffer 32 → List UInt8 → AlignedBuffer 64 → Bool) (rc r₀ : RouterContact)
    {b b' : LlarpBuffer} (hv : rc.version = 0) (hnet : NulPadded rc.netID)
    (hnick : NulPadded rc.nickname)
    (haddrs : ∀ ai ∈ rc.addrs, AddressInfo.WellFormed ai ∧ 0 ∉ ai.dialect)
    (henc : rc.bEncode inet b = some (true, b')) :
    Wrote b b' (enc inet rc) ∧
      r₀.bDecode inet srvValid decodeVersion1 ⟨b'.mem, b.cur⟩ =
        some (some { rc with signedBtDict := r₀.signedBtDict, srvRecords := [] }, b') ∧
      ({ rc with signedBtDict := r₀.signedBtDict, srvRecords := [] } : RouterContact).bEncode inet =
        rc.bEncode inet ∧
      ({ rc with signedBtDict := r₀.signedBtDict, srvRecords := [] } : RouterContact).verifySignature
        inet verify = rc.verifySignature inet verify := by
  have hw : Wrote b b' (enc inet rc) := clean_bEncode inet hv b b' henc
  have hd : (⟨b'.mem, b.cur⟩ : LlarpBuffer).mem.drop (⟨b'.mem, b.cur⟩ : LlarpBuffer).cur =
      enc inet rc ++ b'.mem.drop b'.cur := hw.drop_cur
  have hnorm : rc.addrs.map AddressInfo.normalize = rc.addrs :=
    calc rc.addrs.map AddressInfo.normalize
        = rc.addrs.map id := List.map_congr_left fun ai hai => normalize_of_nul_free (haddrs ai hai).2
      _ = rc.addrs := List.map_id _
  refine ⟨hw, ?_, bEncode_congr inet hv hv rfl, verifySignature_unsigned inet verify rc hv _ _⟩
  rw [bDecode_of_drop inet srvValid decodeVersion1 rc r₀ hnet hnick (fun ai hai => (haddrs ai hai).1) hd,
    hnorm]
  obtain ⟨-, hc, -⟩ := hw
  rw [← hc]

/-! ### Concrete contacts -/

/-- A lawful stand-in for the text form of an address, to run the codecs on concrete contacts:
each byte as two letters from `A` to `P`. -/
def letters (l : List UInt8) : List UInt8 := l.flatMap fun x => [x / 16 + 65, x % 16 + 65]

def unletters : List UInt8 → List UInt8
  | hi :: lo :: rest => ((hi - 65) * 16 + (lo - 65)) :: unletters rest
  | _ => []

theorem length_letters (l : List UInt8) : (letters l).length = 2 * l.length := by
  induction l with
  | nil => rfl
  | cons x l ih =>
    simp only [letters, List.flatMap_cons, List.length_append, List.length_cons,
      List.length_nil] at ih ⊢
    omega

theorem letters_ge (l : List UInt8) : ∀ c ∈ letters l, 65 ≤ c.toNat := by
  intro c hc
  obtain ⟨x, -, hx⟩ := List.mem_flatMap.mp hc
  have hlt := x.toNat_lt
  rcases List.mem_pair.mp hx with rfl | rfl <;>
    simp [UInt8.toNat_add, UInt8.toNat_div, UInt8.toNat_mod] <;> omega

theorem letters_ne_nul (l : List UInt8) : ∀ c ∈ letters l, c ≠ 0 := by
  intro c hc h
  have hge := letters_ge l c hc
  rw [h] at hge
  exact absurd hge (by decide)

theorem unletters_letters (l : List UInt8) : unletters (letters l) = l := by
  induction l with
  | nil => rfl
  | cons x l ih =>
    -- a byte is its two letters' offsets from `A`, high and low nibble
    have hx : (x / 16 + 65 - 65) * 16 + (x % 16 + 65 - 65) = x := by
      have hlt := x.toNat_lt
      simp only [add_sub_cancel_right]
      rw [← UInt8.toNat_inj]
      simp [UInt8.toNat_add, UInt8.toNat_div, UInt8.toNat_mul, UInt8.toNat_mod]
      omega
    simp only [letters, List.flatMap_cons, List.cons_append, List.nil_append, unletters] at ih ⊢
    rw [hx, ih]

def letterInet : Inet6 where
  ntop a := letters a.bytes
  pton s := if h : (unletters s).length = 16 then some ⟨unletters s, h⟩ else none
  ntop_ne_nul a := letters_ne_nul a.bytes
  length_ntop a := by rw [length_letters, a.length_eq]; decide
  pton_ntop a := by simp [unletters_letters, a.length_eq]

/-- An address as routers publish it, on port 1090. -/
def sampleAddress : AddressInfo :=
  ⟨1, ascii "iwp", AlignedBuffer.zero 32, AlignedBuffer.zero 16, 1090⟩

/-- A fresh contact given an address, a nickname and a router version. -/
def sampleContact : RouterContact :=
  { RouterContact.fresh with
    addrs := [sampleAddress]
    nickname := AlignedBuffer.ofPrefix (ascii "bob") (by decide)
    routerVersion := some ⟨[0, 9, 1], rfl, 0⟩ }

set_option maxRecDepth 8000 in
theorem bEncode_bDecode_round_trip_sample :
    ∃ b', sampleContact.bEncode letterInet (ofBytes (List.replicate 400 0)) = some (true, b') ∧
      RouterContact.fresh.bDecode letterInet (fun _ => true) (fun _ => pure none) ⟨b'.mem, 0⟩ =
        some (some { sampleContact with signedBtDict := [], srvRecords := [] }, b') := by
  have henc : sampleContact.bEncode letterInet (ofBytes (List.replicate 400 0)) =
      some (true, ⟨enc letterInet sampleContact ++
        List.replicate (400 - (enc letterInet sampleContact).length) 0,
        (enc letterInet sampleContact).length⟩) :=
    (puts_bEncode letterInet rfl).ofBytes (by decide)
  obtain ⟨-, hdec, -, -⟩ := bEncode_bDecode_round_trip letterInet (fun _ => true)
    (fun _ => pure none) (fun _ _ _ => true) sampleContact RouterContact.fresh rfl
    (by unfold NulPadded; decide) (by unfold NulPadded; decide)
    (fun ai hai => by
      obtain rfl := List.mem_singleton.mp hai
      exact ⟨⟨by decide, by decide, by decide⟩, by decide⟩) henc
  exact ⟨_, henc, hdec⟩

/-- `sampleContact` with the dialect `a` followed by a NUL. -/
def nulContact : RouterContact :=
  { sampleContact with addrs := [{ sampleAddress with dialect := [97, 0] }] }

set_option maxRecDepth 8000 in
/-- A dialect holding a NUL is written whole and read back cut at the NUL: the contact read
back encodes to other bytes, and a signature over the original's encoding no longer checks. -/
theorem nul_dialect_breaks_round_trip :
    ∃ b' r', nulContact.bEncode letterInet (ofBytes (List.replicate 400 0)) = some (true, b') ∧
      RouterContact.fresh.bDecode letterInet (fun _ => true) (fun _ => pure none) ⟨b'.mem, 0⟩ =
        some (some r', b') ∧
      r'.bEncode letterInet (ofBytes (List.replicate 400 0)) ≠ some (true, b') ∧
      r'.verifySignature letterInet (fun _ m _ =>
          decide (m = enc letterInet { nulContact with signature := AlignedBuffer.zero 64 })) ≠
        nulContact.verifySignature letterInet (fun _ m _ =>
          decide (m = enc letterInet { nulContact with signature := AlignedBuffer.zero 64 })) := by
  have henc : nulContact.bEncode letterInet (ofBytes (List.replicate 400 0)) =
      some (true, ⟨enc letterInet nulContact ++
        List.replicate (400 - (enc letterInet nulContact).length) 0,
        (enc letterInet nulContact).length⟩) :=
    (puts_bEncode letterInet rfl).ofBytes (by decide)
  have hw := clean_bEncode letterInet rfl _ _ henc
  -- the address is well formed; only its dialect holds a NUL
  have hdec := bDecode_of_drop letterInet (fun _ => true) (fun _ => pure none) nulContact
    RouterContact.fresh (by unfold NulPadded; decide) (by unfold NulPadded; decide)
    (fun ai hai => by
      obtain rfl := List.mem_singleton.mp hai
      exact ⟨by decide, by decide, by decide⟩) (b := ⟨_, 0⟩) hw.drop_cur
  refine ⟨_, { nulContact with
      addrs := nulContact.addrs.map AddressInfo.normalize
      signedBtDict := RouterContact.fresh.signedBtDict
      srvRecords := [] }, henc, hdec.trans ?_, ?_, ?_⟩
  · simp only [Nat.zero_add]
  · -- the dialect read back is a byte shorter, and so is the encoding
    rw [(puts_bEncode letterInet rfl).ofBytes (by decide)]
    intro h
    have hcur := congrArg (Option.map fun p => p.2.cur) h
    simp only [Option.map_some] at hcur
    exact absurd (Option.some.inj hcur) (by decide)
  · rw [verifySignature_of_fits letterInet _ _ rfl (by decide),
      verifySignature_of_fits letterInet _ _ rfl (by decide)]
    decide

end RouterContact

end Lokinet.Proofs.Router
