import Lokinet.Messages.RelayCommit
import Lokinet.Proofs.RouterCodec

/-!
An `LR_CommitRecord` through `BEncode` and `BDecode`. `BEncode` writes the dict of the entries
`c i n r t v`, with `u` for a contact, `w` for a proof of work, and a second `i` after the next
hop for a lifetime between 10 s and `path::default_lifetime`. `OnKey` reads a lifetime under `l`
only, so it takes that second `i` for the next hop again and reads a byte string from the bytes
of an integer: no record with such a lifetime decodes.
-/

namespace Lokinet.Messages

open Lokinet.Util Lokinet.Net Lokinet.Router FaultState LlarpBuffer Lokinet.Proofs.Bencode

namespace LRCommitRecord

/-- The bytes `RouterContact::BEncode` writes: the signed dict of version 0, or the list of
version 1 with the signature and the signed dict. Other versions write nothing. -/
def contactEnc (inet : Inet6) (rc : RouterContact) : List UInt8 :=
  if rc.version = 0 then Proofs.Router.RouterContact.enc inet rc
  else ascii "li1e" ++ Decimal.decimal 64 ++ [58] ++ rc.signature.bytes ++ rc.signedBtDict ++ [101]

theorem emits_contact (inet : Inet6) (rc : RouterContact) :
    Emits (rc.bEncode inet) (contactEnc inet rc) := by
  by_cases h0 : rc.version = 0
  · simpa [contactEnc, h0] using (Proofs.Router.RouterContact.clean_bEncode inet h0).emits
  · by_cases h1 : rc.version = 1
    · have h := Emits.cons (emits_writef (ascii "li1e" ++ Decimal.decimal 64 ++ [58]))
        (Emits.cons (clean_write rc.signature.bytes).emits
          (Emits.cons (clean_write rc.signedBtDict).emits (Emits.cons (emits_writef [101]) Emits.nil)))
      simpa [RouterContact.bEncode, contactEnc, h0, h1] using h
    · -- `BEncode` refuses any other version
      intro b b' hw
      simp [RouterContact.bEncode, h0, h1] at hw

theorem clean_pow (w : PoW) : Clean w.bEncode [100, 101] := by
  simpa [PoW.bEncode, bencodeStartDict] using @BValue.clean_container 100 [] [] Emits.nil

/-- A contact of version 0 or 1 is written whole on a zeroed buffer with room. -/
theorem puts_contact (inet : Inet6) {rc : RouterContact} (hv : rc.version = 0 ∨ rc.version = 1) :
    Puts (rc.bEncode inet) (contactEnc inet rc) := by
  rcases hv with h0 | h1
  · simpa [contactEnc, h0] using Proofs.Router.RouterContact.puts_bEncode inet h0
  · have h0 : rc.version ≠ 0 := by rw [h1]; decide
    have h := Puts.cons (puts_writef (by simp : ascii "li1e" ++ Decimal.decimal 64 ++ [58] ≠ []))
      (Puts.cons (puts_write rc.signature.bytes) (Puts.cons (puts_write rc.signedBtDict)
        (Puts.singleton (puts_writef (List.cons_ne_nil 101 [])))))
    simpa [RouterContact.bEncode, contactEnc, h0, h1] using h

theorem puts_pow (w : PoW) : Puts w.bEncode [100, 101] := by
  simpa [PoW.bEncode, bencodeStartDict] using Puts.container 100 Puts.nil

/-- The entries of the dict `BEncode` writes. -/
inductive Entry where
  | commkey (k : AlignedBuffer 32)
  | nextHop (k : AlignedBuffer 32)
  | lifetime (t : UInt64)
  | tunnelNonce (n : AlignedBuffer 32)
  | rxid (i : AlignedBuffer 16)
  | txid (i : AlignedBuffer 16)
  | nextRC (rc : RouterContact)
  | version (v : UInt64)
  | work (w : PoW)

namespace Entry

def key : Entry → List UInt8
  | commkey _ => ascii "c"
  | nextHop _ => ascii "i"
  | lifetime _ => ascii "i"
  | tunnelNonce _ => ascii "n"
  | rxid _ => ascii "r"
  | txid _ => ascii "t"
  | nextRC _ => ascii "u"
  | version _ => ascii "v"
  | work _ => ascii "w"

/-- The wire form of the value; a proof of work is an empty dict. -/
def enc (inet : Inet6) : Entry → List UInt8
  | commkey k => bytestringEnc k.bytes
  | nextHop k => bytestringEnc k.bytes
  | lifetime t => integerEnc t
  | tunnelNonce n => bytestringEnc n.bytes
  | rxid i => bytestringEnc i.bytes
  | txid i => bytestringEnc i.bytes
  | nextRC rc => contactEnc inet rc
  | version v => integerEnc v
  | work _ => [100, 101]

/-- The writer calls `BEncode` makes for the entry, key first. -/
def writers (inet : Inet6) : Entry → List (BufferM Bool)
  | commkey k => [bencodeWriteBytestring (ascii "c"), k.bEncode]
  | nextHop k => [bencodeWriteBytestring (ascii "i"), k.bEncode]
  | lifetime t => [bencodeWriteBytestring (ascii "i"), bencodeWriteUint64 t]
  | tunnelNonce n => [bencodeWriteBytestring (ascii "n"), n.bEncode]
  | rxid i => [bencodeWriteBytestring (ascii "r"), i.bEncode]
  | txid i => [bencodeWriteBytestring (ascii "t"), i.bEncode]
  | nextRC rc => [bencodeWriteBytestring (ascii "u"), rc.bEncode inet]
  | version v => [bencodeWriteUint64Entry (ascii "v") v]
  | work w => [bencodeWriteBytestring (ascii "w"), w.bEncode]

theorem length_key (x : Entry) : x.key.length = 1 := by
  cases x <;> rfl

/-- The contact `RouterContact::BDecode` reads back into a new contact from the bytes of a
version-0 one. -/
def decodedContact (rc : RouterContact) : RouterContact :=
  { rc with
    addrs := rc.addrs.map Proofs.Router.AddressInfo.normalize
    signedBtDict := RouterContact.fresh.signedBtDict
    srvRecords := [] }

/-- What `OnKey` does with the entry: a proof of work comes back as the default one, all
`PoW::DecodeKey` leaves of it. -/
def step (r : LRCommitRecord) : Entry → LRCommitRecord
  | commkey k => { r with commkey := k }
  | nextHop k => { r with nextHop := k }
  | lifetime _ => r
  | tunnelNonce n => { r with tunnelNonce := n }
  | rxid i => { r with rxid := i }
  | txid i => { r with txid := i }
  | nextRC rc => { r with nextRC := some (decodedContact rc) }
  | version v => { r with version := v }
  | work _ => { r with work := some PoW.create }

/-- What `OnKey` needs of an entry to read it back into any record: a contact that
`RouterContact::BDecode` reads back, and the version it checks for. It reads no lifetime under
`i`, and a proof of work only into a record without one. -/
def Valid : Entry → Prop
  | lifetime _ => False
  | nextRC rc => rc.version = 0 ∧ Proofs.Router.NulPadded rc.netID ∧
      Proofs.Router.NulPadded rc.nickname ∧ ∀ ai ∈ rc.addrs, Proofs.Router.AddressInfo.WellFormed ai
  | version v => v = llarpProtoVersion
  | work _ => False
  | _ => True

theorem emits_writers (inet : Inet6) (x : Entry) :
    Emits (writeSeq (x.writers inet)) (entryEnc key (enc inet) x) := by
  cases x with
  | commkey k => exact Emits.pair (emits_bencodeWriteBytestring _) _
  | nextHop k => exact Emits.pair (emits_bencodeWriteBytestring _) _
  | lifetime t => exact Emits.pair (clean_bencodeWriteUint64 t).emits _
  | tunnelNonce n => exact Emits.pair (emits_bencodeWriteBytestring _) _
  | rxid i => exact Emits.pair (emits_bencodeWriteBytestring _) _
  | txid i => exact Emits.pair (emits_bencodeWriteBytestring _) _
  | nextRC rc => exact Emits.pair (emits_contact inet rc) _
  | version v => exact Emits.singleton (emits_bencodeWriteUint64Entry _ _)
  | work w => exact Emits.pair (clean_pow w).emits _

/-- An entry is written whole on a zeroed buffer with room, a contact when its version is one
`RouterContact::BEncode` writes. -/
theorem puts_writers (inet : Inet6) (x : Entry)
    (hx : ∀ rc, x = .nextRC rc → rc.version = 0 ∨ rc.version = 1) :
    Puts (writeSeq (x.writers inet)) (entryEnc key (enc inet) x) := by
  cases x with
  | commkey k => exact Puts.pair (puts_bencodeWriteBytestring _) _
  | nextHop k => exact Puts.pair (puts_bencodeWriteBytestring _) _
  | lifetime t => exact Puts.pair (puts_bencodeWriteUint64 t) _
  | tunnelNonce n => exact Puts.pair (puts_bencodeWriteBytestring _) _
  | rxid i => exact Puts.pair (puts_bencodeWriteBytestring _) _
  | txid i => exact Puts.pair (puts_bencodeWriteBytestring _) _
  | nextRC rc => exact Puts.pair (puts_contact inet (hx rc rfl)) _
  | version v => exact Puts.singleton (puts_bencodeWriteUint64Entry _ _)
  | work w => exact Puts.pair (puts_pow w) _

end Entry

/-- The entry of a lifetime `BEncode` writes: one between 10 s and `path::default_lifetime`. -/
def lifetimeEntries (lifetime : Int) : List Entry :=
  if 10000 < lifetime ∧ lifetime < Path.defaultLifetime then [.lifetime (UInt64.ofInt lifetime)]
  else []

/-- The entries after the lifetime. -/
def laterEntries (r : LRCommitRecord) : List Entry :=
  [.tunnelNonce r.tunnelNonce, .rxid r.rxid, .txid r.txid] ++
    (r.nextRC.elim [] fun rc => [.nextRC rc]) ++ [.version llarpProtoVersion] ++
    (r.work.elim [] fun w => [.work w])

/-- The entries of a record, in the order `BEncode` writes them. -/
def entries (r : LRCommitRecord) : List Entry :=
  [.commkey r.commkey, .nextHop r.nextHop] ++ lifetimeEntries r.lifetime ++ laterEntries r

/-- The bytes `BEncode` means to write for a record. -/
def enc (inet : Inet6) (r : LRCommitRecord) : List UInt8 :=
  100 :: (((entries r).map (entryEnc Entry.key (Entry.enc inet))).flatten ++ [101])

variable (inet : Inet6) (srvValid : SRVRecord → Bool)
  (decodeVersion1 : RouterContact → BufferM (Option RouterContact))

theorem bEncode_eq (r : LRCommitRecord) :
    r.bEncode inet =
      writeSeq (bencodeStartDict :: ((entries r).flatMap (Entry.writers inet) ++ [bencodeEnd])) := by
  unfold bEncode
  -- the entries written depend on the lifetime, the contact and the proof of work
  by_cases hl : 10000 < r.lifetime ∧ r.lifetime < Path.defaultLifetime <;>
    cases hrc : r.nextRC <;> cases hw : r.work <;>
    simp [hl, hrc, hw, entries, lifetimeEntries, laterEntries, Entry.writers]

/-- A successful `BEncode` wrote the record's entries between `d` and `e`. -/
theorem clean_bEncode (r : LRCommitRecord) : Clean (r.bEncode inet) (enc inet r) := by
  rw [bEncode_eq inet r]
  exact BValue.clean_container (Emits.flatMap fun x _ => Entry.emits_writers inet x)

/-- On a zeroed buffer with room, `BEncode` of a record whose contact has version 0 or 1 succeeds
and writes its entries. -/
theorem puts_bEncode (r : LRCommitRecord) (hrc : ∀ rc ∈ r.nextRC, rc.version = 0 ∨ rc.version = 1) :
    Puts (r.bEncode inet) (enc inet r) := by
  rw [bEncode_eq inet r]
  refine Puts.container 100 (Puts.flatMap fun x hx => Entry.puts_writers inet x ?_)
  rintro rc rfl
  -- the only contact entry is the record's own
  apply hrc
  cases hn : r.nextRC <;> cases hw : r.work <;>
    simp [entries, laterEntries, lifetimeEntries, hn, hw] at hx ⊢ <;> exact hx.symm

/-- With a lifetime in the window, the next hop is followed by the key `i` again and an
integer. -/
theorem enc_of_lifetime {r : LRCommitRecord} (hlo : 10000 < r.lifetime)
    (hhi : r.lifetime < Path.defaultLifetime) :
    enc inet r = 100 :: (([Entry.commkey r.commkey, Entry.nextHop r.nextHop].map
      (entryEnc Entry.key (Entry.enc inet))).flatten ++ (bytestringEnc (ascii "i") ++
        105 :: (Decimal.decimal (UInt64.ofInt r.lifetime).toNat ++ 101 ::
          (((laterEntries r).map (entryEnc Entry.key (Entry.enc inet))).flatten ++ [101])))) := by
  simp [enc, entries, lifetimeEntries, hlo, hhi, entryEnc, Entry.key, Entry.enc, integerEnc]

/-- `OnKey` reads each entry `BEncode` writes but the lifetime and the proof of work, whatever
record it reads into: the keys are distinct letters, so exactly one test of the chain holds. -/
theorem readsEntry {x : Entry} (hx : x.Valid) :
    ReadsEntry (onKey inet srvValid decodeVersion1) Entry.key (Entry.enc inet) Entry.step x := by
  refine ⟨by rw [Entry.length_key]; decide, fun acc b rest h => ?_⟩
  cases x with
  | commkey k =>
    simp +decide only [onKey, Entry.key, ↓reduceIte]
    simp [bind_of_some (Proofs.Router.AlignedBuffer.bDecode_of_drop (by decide) h), Entry.step,
      Entry.enc]
  | nextHop k =>
    simp +decide only [onKey, Entry.key, ↓reduceIte]
    simp [bind_of_some (Proofs.Router.AlignedBuffer.bDecode_of_drop (by decide) h), Entry.step,
      Entry.enc]
  | lifetime t => exact absurd hx id
  | tunnelNonce n =>
    simp +decide only [onKey, Entry.key, ↓reduceIte]
    simp [bind_of_some (Proofs.Router.AlignedBuffer.bDecode_of_drop (by decide) h), Entry.step,
      Entry.enc]
  | rxid i =>
    simp +decide only [onKey, Entry.key, ↓reduceIte]
    simp [bind_of_some (Proofs.Router.AlignedBuffer.bDecode_of_drop (by decide) h), Entry.step,
      Entry.enc]
  | txid i =>
    simp +decide only [onKey, Entry.key, ↓reduceIte]
    simp [bind_of_some (Proofs.Router.AlignedBuffer.bDecode_of_drop (by decide) h), Entry.step,
      Entry.enc]
  | nextRC rc =>
    obtain ⟨hv, hnet, hnick, haddrs⟩ := hx
    have hd : b.mem.drop b.cur = Proofs.Router.RouterContact.enc inet rc ++ rest := by
      simpa [Entry.enc, contactEnc, hv] using h
    simp +decide only [onKey, Entry.key, ↓reduceIte]
    simp [bind_of_some (Proofs.Router.RouterContact.bDecode_of_drop inet srvValid decodeVersion1 rc
      RouterContact.fresh hnet hnick haddrs hd), Entry.step, Entry.enc, contactEnc, hv,
      Entry.decodedContact]
  | version v =>
    obtain rfl : v = llarpProtoVersion := hx
    simp +decide only [onKey, ↓reduceIte]
    simp [bind_of_some (bencodeReadInteger_of_drop h), Entry.step, Entry.enc]
  | work w => exact absurd hx id

/-- Where an integer starts, `OnKey` refuses the key `i`: the next hop it reads there is a byte
string of the wrong length. -/
theorem onKey_i_of_integer {b : LlarpBuffer} {t : List UInt8} (h : b.mem.drop b.cur = 105 :: t)
    (r r' : LRCommitRecord) (b' : LlarpBuffer) :
    onKey inet srvValid decodeVersion1 r (ascii "i") b ≠ some (some r', b') := by
  intro hr
  simp +decide only [onKey, ↓reduceIte] at hr
  obtain ⟨o, b₁, hread, hr⟩ := bind_eq_some.mp hr
  cases o with
  | none => simp at hr
  | some a => exact Proofs.Router.AlignedBuffer.bDecode_of_integer (by decide) h a b₁ hread

/-- No record with a lifetime between 10 s and `path::default_lifetime` decodes from the bytes
`BEncode` wrote for it, whatever record `BDecode` starts from: after the commitment key and the
next hop, `OnKey` meets the key `i` again and refuses the integer under it. -/
theorem bDecode_refuses_lifetime (r r₀ : LRCommitRecord) {b b' : LlarpBuffer}
    (hlo : 10000 < r.lifetime) (hhi : r.lifetime < Path.defaultLifetime)
    (henc : r.bEncode inet b = some (true, b')) (r' : LRCommitRecord) (b'' : LlarpBuffer) :
    r₀.bDecode inet srvValid decodeVersion1 ⟨b'.mem, b.cur⟩ ≠ some (some r', b'') := by
  have hw := clean_bEncode inet r b b' henc
  have hd : (⟨b'.mem, b.cur⟩ : LlarpBuffer).mem.drop (⟨b'.mem, b.cur⟩ : LlarpBuffer).cur =
      enc inet r ++ b'.mem.drop b'.cur := hw.drop_cur
  simp only [enc_of_lifetime inet hlo hhi, List.cons_append, List.append_assoc] at hd
  -- the commitment key and the next hop are read, then the second `i` is refused
  have hread : ∀ x ∈ [Entry.commkey r.commkey, Entry.nextHop r.nextHop],
      ReadsEntry (onKey inet srvValid decodeVersion1) Entry.key (Entry.enc inet) Entry.step x := by
    intro x hx
    simp only [List.mem_cons, List.not_mem_nil, or_false] at hx
    rcases hx with rfl | rfl <;> exact readsEntry inet srvValid decodeVersion1 trivial
  exact bencodeReadDict_refuses hread (by decide)
    (fun acc _ h => onKey_i_of_integer inet srvValid decodeVersion1 h acc) hd r' b''

/-- A record with a one-minute lifetime. -/
def minuteRecord : LRCommitRecord := { create with lifetime := 60000 }

set_option maxRecDepth 8000 in
theorem bDecode_refuses_lifetime_minute :
    ∃ b', minuteRecord.bEncode Proofs.Router.RouterContact.letterInet
        (LlarpBuffer.ofBytes (List.replicate 256 0)) = some (true, b') ∧
      ∀ r' b'', create.bDecode Proofs.Router.RouterContact.letterInet (fun _ => true)
        (fun _ => pure none) ⟨b'.mem, 0⟩ ≠ some (some r', b'') := by
  have hb' := (puts_bEncode Proofs.Router.RouterContact.letterInet minuteRecord
    (by simp [minuteRecord, create])).ofBytes (n := 256) (by decide)
  exact ⟨_, hb', bDecode_refuses_lifetime _ _ _ minuteRecord create (by decide) (by decide) hb'⟩

/-! ### Records without a lifetime to write -/

/-- `OnKey` reads a proof of work, an empty dict, into a record that has none yet. -/
theorem onKey_work {acc : LRCommitRecord} (hacc : acc.work = none) {b : LlarpBuffer}
    {rest : List UInt8} (h : b.mem.drop b.cur = [100, 101] ++ rest) :
    onKey inet srvValid decodeVersion1 acc (ascii "w") b =
      some (some { acc with work := some PoW.create }, { b with cur := b.cur + 2 }) := by
  -- `PoW::DecodeKey` is never called on an empty dict
  have hnone : ∀ x ∈ ([] : List Entry), ReadsEntry PoW.decodeKey Entry.key (Entry.enc inet)
      (fun w _ => w) x := fun x hx => absurd hx List.not_mem_nil
  have hd : b.mem.drop b.cur =
      100 :: ((([] : List Entry).map (entryEnc Entry.key (Entry.enc inet))).flatten ++ 101 :: rest) := by
    simpa using h
  have hdict : bencodeDecodeDict PoW.decodeKey PoW.create b =
      some (some PoW.create, { b with cur := b.cur + 2 }) := by
    rw [bencodeDecodeDict, bencodeReadDict_of_drop hnone hd]
    simp
  simp +decide only [onKey, hacc, ↓reduceIte]
  rw [bind_of_some hdict]
  simp

/-- The record `BDecode` reads into a new record from the bytes of `r`: the lifetime stays zero,
the version is the one `OnKey` checks for, the contact comes back as `RouterContact::BDecode`
reads it and the proof of work as the default one. -/
def readBack (r : LRCommitRecord) : LRCommitRecord :=
  { r with
    nextRC := r.nextRC.map Entry.decodedContact
    work := r.work.map fun _ => PoW.create
    version := llarpProtoVersion
    lifetime := 0 }

/-- The entries of a record with no lifetime to write, but the proof of work. -/
def fieldEntries (r : LRCommitRecord) : List Entry :=
  [.commkey r.commkey, .nextHop r.nextHop, .tunnelNonce r.tunnelNonce, .rxid r.rxid, .txid r.txid] ++
    (r.nextRC.elim [] fun rc => [.nextRC rc]) ++ [.version llarpProtoVersion]

theorem entries_of_no_lifetime {r : LRCommitRecord}
    (hwin : ¬(10000 < r.lifetime ∧ r.lifetime < Path.defaultLifetime)) :
    entries r = fieldEntries r ++ r.work.elim [] fun w => [.work w] := by
  simp [entries, lifetimeEntries, hwin, laterEntries, fieldEntries]

/-- `OnKey` reads each of those entries into any record, given a contact it reads back. -/
theorem valid_fieldEntries {r : LRCommitRecord} (hrc : ∀ rc ∈ r.nextRC, (Entry.nextRC rc).Valid) :
    ∀ x ∈ fieldEntries r, x.Valid := by
  intro x hx
  cases hr : r.nextRC with
  | none =>
    simp only [fieldEntries, hr, Option.elim_none, List.append_nil, List.cons_append,
      List.nil_append, List.mem_cons, List.not_mem_nil, or_false] at hx
    rcases hx with rfl | rfl | rfl | rfl | rfl | rfl <;> trivial
  | some rc =>
    simp only [fieldEntries, hr, Option.elim_some, List.cons_append, List.nil_append,
      List.mem_cons, List.not_mem_nil, or_false] at hx
    rcases hx with rfl | rfl | rfl | rfl | rfl | rfl | rfl
    any_goals trivial
    exact hrc rc hr

/-- Those entries leave a new record without a proof of work. -/
theorem work_foldl_fieldEntries (r : LRCommitRecord) :
    ((fieldEntries r).foldl Entry.step create).work = none := by
  cases hr : r.nextRC <;> simp [fieldEntries, hr, Entry.step, create]

/-- A new record reads the entries of `r` back, the proof of work last. -/
theorem reads_entries {r : LRCommitRecord}
    (hwin : ¬(10000 < r.lifetime ∧ r.lifetime < Path.defaultLifetime))
    (hrc : ∀ rc ∈ r.nextRC, (Entry.nextRC rc).Valid) :
    ReadsEntries (onKey inet srvValid decodeVersion1) Entry.key (Entry.enc inet) Entry.step create
      (entries r) := by
  rw [entries_of_no_lifetime hwin]
  refine ReadsEntries.append
    (fun x hx => readsEntry inet srvValid decodeVersion1 (valid_fieldEntries hrc x hx)) ?_
  cases r.work with
  | none => trivial
  | some w =>
    exact ⟨⟨by rw [Entry.length_key]; decide, fun b rest h =>
      onKey_work inet srvValid decodeVersion1 (work_foldl_fieldEntries r) h⟩, trivial⟩

theorem foldl_step_entries {r : LRCommitRecord}
    (hwin : ¬(10000 < r.lifetime ∧ r.lifetime < Path.defaultLifetime)) :
    (entries r).foldl Entry.step create = readBack r := by
  rw [entries_of_no_lifetime hwin]
  cases hr : r.nextRC <;> cases hw : r.work <;>
    simp [fieldEntries, hr, hw, Entry.step, readBack, create]

/-- A new record reads back, as `readBack` says, a record with no lifetime to write and a contact,
if any, that `RouterContact::BDecode` reads back, from wherever its bytes stand. -/
theorem bDecode_of_drop (r : LRCommitRecord)
    (hwin : ¬(10000 < r.lifetime ∧ r.lifetime < Path.defaultLifetime))
    (hrc : ∀ rc ∈ r.nextRC, (Entry.nextRC rc).Valid) {b : LlarpBuffer} {rest : List UInt8}
    (h : b.mem.drop b.cur = enc inet r ++ rest) :
    create.bDecode inet srvValid decodeVersion1 b =
      some (some (readBack r), { b with cur := b.cur + (enc inet r).length }) := by
  have hd : b.mem.drop b.cur =
      100 :: (((entries r).map (entryEnc Entry.key (Entry.enc inet))).flatten ++ 101 :: rest) := by
    simpa [enc] using h
  rw [bDecode, bencodeDecodeDict, bencodeReadDict_of_reads (reads_entries inet srvValid
    decodeVersion1 hwin hrc) hd, foldl_step_entries hwin]
  simp [enc, Nat.add_assoc]

/-- `operator==` holds of the record read back exactly when the proof of work is the default one
or absent. -/
theorem readBack_eq (r : LRCommitRecord) : (readBack r).eq r = r.work.all (· == PoW.create) := by
  cases hw : r.work with
  | none => simp [readBack, eq, hw]
  | some w => simp [readBack, eq, hw, eq_comm]

/-- A record with no lifetime to write, and a contact, if any, that `RouterContact::BDecode`
reads back, decodes from the bytes `BEncode` wrote into a new record as `readBack` says, up to
the end of what was written; the two are equal under `operator==` unless the record carried a
proof of work other than the default one. The path builder's records, whose lifetime is
`path::default_lifetime`, are of this kind. -/
theorem bDecode_bEncode_outside_window (r : LRCommitRecord) {b b' : LlarpBuffer}
    (hwin : ¬(10000 < r.lifetime ∧ r.lifetime < Path.defaultLifetime))
    (hrc : ∀ rc ∈ r.nextRC, (Entry.nextRC rc).Valid)
    (henc : r.bEncode inet b = some (true, b')) :
    create.bDecode inet srvValid decodeVersion1 ⟨b'.mem, b.cur⟩ = some (some (readBack r), b') ∧
      (readBack r).eq r = r.work.all (· == PoW.create) := by
  have hw := clean_bEncode inet r b b' henc
  refine ⟨?_, readBack_eq r⟩
  rw [bDecode_of_drop inet srvValid decodeVersion1 r hwin hrc (b := ⟨b'.mem, b.cur⟩) hw.drop_cur]
  -- the read stops where the writing stopped
  obtain ⟨-, hc, -⟩ := hw
  rw [← hc]

/-- A record as the path builder makes it: lifetime `path::default_lifetime`, no contact, no
proof of work. -/
def builderRecord : LRCommitRecord := { create with lifetime := Path.defaultLifetime }

set_option maxRecDepth 8000 in
theorem bDecode_bEncode_outside_window_builder :
    ∃ b', builderRecord.bEncode Proofs.Router.RouterContact.letterInet
        (LlarpBuffer.ofBytes (List.replicate 256 0)) = some (true, b') ∧
      create.bDecode Proofs.Router.RouterContact.letterInet (fun _ => true) (fun _ => pure none)
        ⟨b'.mem, 0⟩ = some (some (readBack builderRecord), b') ∧
      (readBack builderRecord).eq builderRecord = true := by
  have hb' := (puts_bEncode Proofs.Router.RouterContact.letterInet builderRecord
    (by simp [builderRecord, create])).ofBytes (n := 256) (by decide)
  have hnone : ∀ rc ∈ builderRecord.nextRC, (Entry.nextRC rc).Valid := fun rc h => by
    simp [builderRecord, create] at h
  obtain ⟨hdec, heq⟩ := bDecode_bEncode_outside_window _ _ _ builderRecord (by decide) hnone hb'
  exact ⟨_, hb', hdec, heq.trans rfl⟩

end LRCommitRecord

end Lokinet.Messages
