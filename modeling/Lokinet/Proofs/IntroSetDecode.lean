import Lokinet.Proofs.IntroSetEncode

/-!
What the decoders of an exit policy and of a hidden service's descriptor read back from what the
encoders write. A record comes back as it was, up to what its encoder leaves out: `ServiceInfo`
writes the protocol's version and not its own, and an introduction's latency that is not
positive as a signed count is not written. The `std::set`s are rebuilt by `emplace`, so a set
comes back when its elements form a chain under the set's comparator and each range's text
parses back to the range; a range whose text parses to one already read stops the decode.
-/

namespace Lokinet.Proofs.Net

open Lokinet.Util Lokinet.Net Lokinet.Proofs.Bencode FaultState LlarpBuffer

/-- `htons` undoes itself: `ProtocolInfo` writes the port in host order and reads it back in
network order. -/
theorem htons_htons (x : UInt16) : htons (htons x) = x := by
  unfold htons
  apply UInt16.toBitVec_inj.mp
  ext i hi
  have hhigh := BitVec.getLsbD_of_ge x.toBitVec (8 + (8 + i)) (by omega)
  simp only [UInt16.toBitVec_or, UInt16.toBitVec_shiftLeft, UInt16.toBitVec_shiftRight,
    BitVec.getElem_or]
  -- the low byte comes from the high one and back
  by_cases h8 : i < 8
  · have h3 : 8 + i < 16 := by omega
    simp [h8, h3, hhigh]
  · have h1 : 8 + (i - 8) = i := by omega
    have h2 : i - 8 < 8 := by omega
    have h3 : ¬(8 + i < 16) := by omega
    simp [h8, h1, h2, h3, hhigh, BitVec.getLsbD_eq_getElem hi]

/-- A list sink that appends each integer it reads reads every integer. -/
theorem readsItem_append_integer {sink : List UInt64 → BufferM (Option (List UInt64))}
    (hsink : ∀ vals v (b : LlarpBuffer) rest, b.mem.drop b.cur = integerEnc v ++ rest →
      sink vals b = some (some (vals ++ [v]), { b with cur := b.cur + (integerEnc v).length }))
    (v : UInt64) : ReadsItem sink integerEnc (fun vals v => vals ++ [v]) v :=
  ⟨⟨105, _, rfl, by decide⟩, fun vals b rest h => hsink vals v b rest h⟩

/-! ### `ProtocolInfo` -/

namespace ProtocolInfo

/-- The integers of the list `BEncode` writes. -/
def items (p : ProtocolInfo) : List UInt64 :=
  p.protocol.toUInt64 :: p.port.toList.map fun n => (htons n).toUInt64

theorem enc_eq (p : ProtocolInfo) :
    ProtocolInfo.enc p = 108 :: (((items p).map integerEnc).flatten ++ [101]) := by
  simp [ProtocolInfo.enc, items, Function.comp_def]

/-- `ProtocolInfo::BDecode` reads back what `BEncode` wrote: the protocol fits a byte and the
port, swapped twice, is the port. -/
theorem bDecode_of_drop (p : ProtocolInfo) {b : LlarpBuffer} {rest : List UInt8}
    (h : b.mem.drop b.cur = ProtocolInfo.enc p ++ rest) :
    ProtocolInfo.bDecode b =
      some (some p, { b with cur := b.cur + (ProtocolInfo.enc p).length }) := by
  have hd : b.mem.drop b.cur = 108 :: (((items p).map integerEnc).flatten ++ 101 :: rest) := by
    simp [h, enc_eq]
  have hproto : ¬p.protocol.toUInt64 > 255 := by
    have := p.protocol.toNat_lt
    simp [UInt64.lt_iff_toNat_lt]
    omega
  have hlen : b.cur + ((items p).map integerEnc).flatten.length + 2 =
      b.cur + (ProtocolInfo.enc p).length := by
    simp [enc_eq]
    omega
  simp only [ProtocolInfo.bDecode]
  rw [bind_apply, bencodeReadList_of_drop (fun v _ => readsItem_append_integer ?_ v) hd,
    foldl_append_singleton]
  · obtain ⟨protocol, port⟩ := p
    cases port with
    | none => simp [items, hproto, ← hlen]
    | some n =>
      have hport : ¬(htons n).toUInt64 > 65536 := by
        have := (htons n).toNat_lt
        simp [UInt64.lt_iff_toNat_lt]
        omega
      simp only at hproto
      simp [items, hproto, hport, htons_htons, ← hlen]
  · intro vals v b rest hb
    simp [bind_of_some (bencodeReadInteger_of_drop hb)]

end ProtocolInfo

/-! ### `IPRange` -/

/-- Under oxenmq's contract every short string goes through it and back. -/
theorem lawful_btReads {bt : BtString} (hbt : bt.Lawful) {s : List UInt8} (hs : s.length + 10 ≤ 10 ^ 9) :
    BtReads bt.serialize bt.deserialize s := by
  have hdig : (Decimal.decimal s.length).length ≤ 9 := Decimal.length_decimal_le (by decide) (by omega)
  refine ⟨.str s, ?_, ?_, hbt.deserialize_serialize s (by omega)⟩
  · rw [hbt.serialize_eq]
    rfl
  · simp only [BValue.enc, bytestringEnc, List.length_append, List.length_cons]
    omega

namespace IPRange

variable (inet : Inet6) (inet4 : Inet4) (bt : BtString)

/-- The text of `r` goes through oxenmq and back, and parses back as `o`. -/
def TextReads (r : IPRange) (o : Option IPRange) : Prop :=
  BtReads bt.serialize bt.deserialize (IPRange.toString inet inet4 r) ∧
    IPRange.fromString inet inet4 (IPRange.toString inet inet4 r) = some o

/-- `IPRange::BDecode` skips the string, deserializes it and parses it: what `FromString` makes
of the text `BEncode` wrote. -/
theorem bDecode_of_drop {r : IPRange} {o : Option IPRange} (hr : TextReads inet inet4 bt r o)
    {b : LlarpBuffer} {rest : List UInt8} (h : b.mem.drop b.cur = IPRange.enc inet inet4 bt r ++ rest) :
    IPRange.bDecode inet inet4 bt b =
      some (o, { b with cur := b.cur + (IPRange.enc inet inet4 bt r).length }) := by
  obtain ⟨hbt, hparse⟩ := hr
  obtain ⟨hskip, hback⟩ := BtReads.discard hbt h
  simp only [IPRange.bDecode, get_bind, bind_of_some hskip]
  simp [hback, hparse, IPRange.enc]

theorem enc_head {r : IPRange} {o : Option IPRange} (hr : TextReads inet inet4 bt r o) :
    ∃ c cs, IPRange.enc inet inet4 bt r = c :: cs ∧ c ≠ 101 := by
  obtain ⟨⟨v, hv, -, -⟩, -⟩ := hr
  rw [IPRange.enc, ← hv]
  exact BValue.enc_head v

/-- The ranges of a chain whose texts parse back are read into a set each of them comes after,
as they were. -/
theorem bEncodeReadSet_of_drop {rs set : List IPRange}
    (htext : ∀ r ∈ rs, TextReads inet inet4 bt r (some r))
    (hchain : (set ++ rs).Pairwise (StdSet.Precedes IPRange.lt)) {b : LlarpBuffer}
    {rest : List UInt8}
    (h : b.mem.drop b.cur = 108 :: ((rs.map (IPRange.enc inet inet4 bt)).flatten ++ 101 :: rest)) :
    bEncodeReadSet IPRange.lt (IPRange.bDecode inet inet4 bt) set b =
      some (some (set ++ rs),
        { b with cur := b.cur + (rs.map (IPRange.enc inet inet4 bt)).flatten.length + 2 }) := by
  have hread := Bencode.bEncodeReadSet_of_drop (f := id) (fun r hr => enc_head inet inet4 bt (htext r hr))
    (fun r hr b rest hb => bDecode_of_drop inet inet4 bt (htext r hr) hb) (by simpa using hchain) h
  simpa using hread

end IPRange

/-! ### `TrafficPolicy` -/

namespace TrafficPolicy

/-- The entries of the dict `TrafficPolicy::BEncode` writes. -/
inductive Entry where
  | protocols (ps : List ProtocolInfo)
  | ranges (rs : List IPRange)

namespace Entry

def key : Entry → List UInt8
  | protocols _ => ascii "p"
  | ranges _ => ascii "r"

variable (inet : Inet6) (inet4 : Inet4) (bt : BtString)

def enc : Entry → List UInt8
  | protocols ps => 108 :: ((ps.map ProtocolInfo.enc).flatten ++ [101])
  | ranges rs => 108 :: ((rs.map (IPRange.enc inet inet4 bt)).flatten ++ [101])

/-- What `DecodeKey` makes of an entry: the elements are emplaced in the set read so far. -/
def step (t : TrafficPolicy) : Entry → TrafficPolicy
  | protocols ps => { t with protocols := t.protocols ++ ps }
  | ranges rs => { t with ranges := t.ranges ++ rs }

theorem length_key (x : Entry) : x.key.length = 1 := by
  cases x <;> rfl

end Entry

variable (inet : Inet6) (inet4 : Inet4) (bt : BtString)

def entries (t : TrafficPolicy) : List Entry := [Entry.protocols t.protocols, Entry.ranges t.ranges]

theorem enc_eq (t : TrafficPolicy) :
    TrafficPolicy.enc inet inet4 bt t =
      100 :: (((entries t).map (entryEnc Entry.key (Entry.enc inet inet4 bt))).flatten ++ [101]) := by
  simp [TrafficPolicy.enc, entries, entryEnc, Entry.key, Entry.enc]

/-- What a policy must be for `BDecode` to read it back: each set a chain under its comparator,
and each range's text parsing back to the range. -/
structure ReadsBack (t : TrafficPolicy) : Prop where
  protocols_chain : t.protocols.Pairwise (StdSet.Precedes ProtocolInfo.lt)
  ranges_chain : t.ranges.Pairwise (StdSet.Precedes IPRange.lt)
  ranges_text : ∀ r ∈ t.ranges, IPRange.TextReads inet inet4 bt r (some r)

/-- `TrafficPolicy::BDecode`, into the fresh policy `IntroSet::DecodeKey` gives it, reads back a
policy whose sets are chains. -/
theorem bDecode_of_drop (t : TrafficPolicy) (ht : ReadsBack inet inet4 bt t) {b : LlarpBuffer}
    {rest : List UInt8} (h : b.mem.drop b.cur = TrafficPolicy.enc inet inet4 bt t ++ rest) :
    TrafficPolicy.bDecode inet inet4 bt ⟨[], []⟩ b =
      some (some t, { b with cur := b.cur + (TrafficPolicy.enc inet inet4 bt t).length }) := by
  have hd : b.mem.drop b.cur = 100 ::
      (((entries t).map (entryEnc Entry.key (Entry.enc inet inet4 bt))).flatten ++ 101 :: rest) := by
    simpa [enc_eq] using h
  -- the protocols go into the empty set, then the ranges into the empty set
  have hreads : ReadsEntries (TrafficPolicy.decodeKey inet inet4 bt) Entry.key (Entry.enc inet inet4 bt)
      Entry.step ⟨[], []⟩ (entries t) := by
    refine ⟨⟨by rw [Entry.length_key]; decide, fun b rest hb => ?_⟩,
      ⟨by rw [Entry.length_key]; decide, fun b rest hb => ?_⟩, trivial⟩
    · have hps : b.mem.drop b.cur =
          108 :: ((t.protocols.map ProtocolInfo.enc).flatten ++ 101 :: rest) := by
        simpa [Entry.enc] using hb
      have hchain : ([] ++ t.protocols.map id).Pairwise (StdSet.Precedes ProtocolInfo.lt) := by
        simpa using ht.protocols_chain
      have hread := bEncodeReadSet_of_drop (fun p _ => ⟨108, _, ProtocolInfo.enc_eq p, by decide⟩)
        (fun p _ b rest hb => ProtocolInfo.bDecode_of_drop p hb) hchain hps
      simp +decide only [TrafficPolicy.decodeKey, Entry.key, ↓reduceIte]
      simp [bind_of_some hread, Entry.step, Entry.enc, Nat.add_assoc]
    · have hrs : b.mem.drop b.cur =
          108 :: ((t.ranges.map (IPRange.enc inet inet4 bt)).flatten ++ 101 :: rest) := by
        simpa [Entry.enc] using hb
      have hchain : ([] ++ t.ranges).Pairwise (StdSet.Precedes IPRange.lt) := by
        simpa using ht.ranges_chain
      have hread := IPRange.bEncodeReadSet_of_drop inet inet4 bt ht.ranges_text hchain hrs
      simp +decide only [TrafficPolicy.decodeKey, Entry.key, ↓reduceIte]
      simp [bind_of_some hread, Entry.step, Entry.enc, Nat.add_assoc]
  rw [TrafficPolicy.bDecode, bencodeReadDict_of_reads hreads hd]
  simp [entries, Entry.step, enc_eq, Nat.add_assoc]

end TrafficPolicy

end Lokinet.Proofs.Net

namespace Lokinet.Proofs.Service

open Lokinet.Util Lokinet.Net Lokinet.Service Lokinet.Proofs.Bencode Lokinet.Proofs.Net FaultState
  LlarpBuffer

/-! ### `ServiceInfo` -/

namespace ServiceInfo

namespace Entry

/-- What `DecodeKey` makes of an entry; the version read is the one written, the protocol's. -/
def step (si : ServiceInfo) : Entry → ServiceInfo
  | enckey k => { si with enckey := k }
  | signkey k => { si with signkey := k }
  | version => { si with version := llarpProtoVersion }
  | vanity v => { si with vanity := v }

theorem length_key (x : Entry) : x.key.length = 1 := by
  cases x <;> rfl

/-- `ServiceInfo::DecodeKey` reads each entry `BEncode` writes, into any service. -/
theorem readsEntry (x : Entry) : ReadsEntry ServiceInfo.decodeKey key enc step x := by
  refine ⟨by rw [length_key]; decide, fun acc b rest h => ?_⟩
  cases x with
  | enckey k =>
    simp +decide only [ServiceInfo.decodeKey, key, ↓reduceIte]
    simp [bind_of_some (Router.AlignedBuffer.bDecode_of_drop (by decide) h), step, enc]
  | signkey k =>
    simp +decide only [ServiceInfo.decodeKey, key, ↓reduceIte]
    simp [bind_of_some (Router.AlignedBuffer.bDecode_of_drop (by decide) h), step, enc]
  | version =>
    simp +decide only [ServiceInfo.decodeKey, ↓reduceIte]
    simp [bind_of_some (bencodeReadInteger_of_drop h), step, enc]
  | vanity v =>
    simp +decide only [ServiceInfo.decodeKey, key, ↓reduceIte]
    simp [bind_of_some (Router.AlignedBuffer.bDecode_of_drop (by decide) h), step, enc]

end Entry

/-- Reading the entries of `si` into `si₀` gives `si` with the protocol's version, and with the
vanity nonce of `si₀` where that of `si` is zero and so not written. -/
theorem foldl_step_entries (si si₀ : ServiceInfo) :
    (entries si).foldl Entry.step si₀ =
      { si with version := llarpProtoVersion,
                vanity := if si.vanity = AlignedBuffer.zero 16 then si₀.vanity else si.vanity } := by
  by_cases hv : si.vanity = AlignedBuffer.zero 16 <;> simp [entries, hv, Entry.step]

/-- A service carrying the protocol's version reads back as it was into the empty service. -/
theorem foldl_step_entries_empty {si : ServiceInfo} (hv : si.version = llarpProtoVersion) :
    (entries si).foldl Entry.step ServiceInfo.empty = si := by
  rw [foldl_step_entries]
  obtain ⟨enckey, signkey, vanity, version⟩ := si
  simp only at hv
  subst hv
  by_cases hz : vanity = AlignedBuffer.zero 16 <;> simp [hz, ServiceInfo.empty]

theorem bDecode_of_drop (si si₀ : ServiceInfo) {b : LlarpBuffer} {rest : List UInt8}
    (h : b.mem.drop b.cur = enc si ++ rest) :
    si₀.bDecode b =
      some (some ((entries si).foldl Entry.step si₀), { b with cur := b.cur + (enc si).length }) := by
  have hd : b.mem.drop b.cur =
      100 :: (((entries si).map (entryEnc Entry.key Entry.enc)).flatten ++ 101 :: rest) := by
    simpa [enc] using h
  rw [ServiceInfo.bDecode, bencodeDecodeDict, bencodeReadDict_of_drop (fun x _ => Entry.readsEntry x) hd]
  simp [enc, Nat.add_assoc]

end ServiceInfo

/-! ### `Introduction` -/

namespace Introduction

namespace Entry

def step (i : Introduction) : Entry → Introduction
  | router k => { i with router := k }
  | latency l => { i with latency := l }
  | pathID p => { i with pathID := p }
  | version v => { i with version := v }
  | expiresAt t => { i with expiresAt := t }

theorem length_key (x : Entry) : x.key.length = 1 := by
  cases x <;> rfl

/-- `Introduction::DecodeKey` reads each entry `BEncode` writes, into any introduction. -/
theorem readsEntry (x : Entry) : ReadsEntry Introduction.decodeKey key enc step x := by
  refine ⟨by rw [length_key]; decide, fun acc b rest h => ?_⟩
  cases x with
  | router k =>
    simp +decide only [Introduction.decodeKey, key, ↓reduceIte]
    simp [bind_of_some (Router.AlignedBuffer.bDecode_of_drop (by decide) h), step, enc]
  | latency l =>
    simp +decide only [Introduction.decodeKey, key, ↓reduceIte]
    simp [bind_of_some (bencodeReadInteger_of_drop h), step, enc]
  | pathID p =>
    simp +decide only [Introduction.decodeKey, key, ↓reduceIte]
    simp [bind_of_some (Router.AlignedBuffer.bDecode_of_drop (by decide) h), step, enc]
  | version v =>
    simp +decide only [Introduction.decodeKey, key, ↓reduceIte]
    simp [bind_of_some (bencodeReadInteger_of_drop h), step, enc]
  | expiresAt t =>
    simp +decide only [Introduction.decodeKey, key, ↓reduceIte]
    simp [bind_of_some (bencodeReadInteger_of_drop h), step, enc]

end Entry

/-- Reading the entries of `i` into `i₀` gives `i`, with the latency of `i₀` where that of `i`
is not positive as a signed count and so not written. -/
theorem foldl_step_entries (i i₀ : Introduction) :
    (entries i).foldl Entry.step i₀ =
      { i with latency :=
          if 0 < i.latency ∧ i.latency < 0x8000000000000000 then i.latency else i₀.latency } := by
  by_cases hl : 0 < i.latency ∧ i.latency < 0x8000000000000000 <;> simp [entries, hl, Entry.step]

theorem enc_head (i : Introduction) : ∃ c cs, enc i = c :: cs ∧ c ≠ 101 :=
  ⟨100, _, rfl, by decide⟩

theorem bDecode_of_drop (i i₀ : Introduction) {b : LlarpBuffer} {rest : List UInt8}
    (h : b.mem.drop b.cur = enc i ++ rest) :
    i₀.bDecode b =
      some (some ((entries i).foldl Entry.step i₀), { b with cur := b.cur + (enc i).length }) := by
  have hd : b.mem.drop b.cur =
      100 :: (((entries i).map (entryEnc Entry.key Entry.enc)).flatten ++ 101 :: rest) := by
    simpa [enc] using h
  rw [Introduction.bDecode, bencodeDecodeDict,
    bencodeReadDict_of_drop (fun x _ => Entry.readsEntry x) hd]
  simp [enc, Nat.add_assoc]

/-- What `BEncodeReadList` makes of the wire form of `i`: its entries read into the fresh
element it emplaces. -/
def readBack (i : Introduction) : Introduction := (entries i).foldl Entry.step Introduction.empty

/-- An introduction whose latency is not negative as a signed count reads back as it was. -/
theorem readBack_of_latency {i : Introduction} (hl : i.latency < 0x8000000000000000) :
    readBack i = i := by
  rw [readBack, foldl_step_entries]
  by_cases h0 : i.latency = 0
  · obtain ⟨router, pathID, latency, expiresAt, version⟩ := i
    simp only at h0
    subst h0
    simp [Introduction.empty]
  · have hpos : 0 < i.latency := by
      rw [UInt64.lt_iff_toNat_lt]
      have : i.latency.toNat ≠ 0 := fun h => h0 (UInt64.toNat_inj.mp h)
      simp only [UInt64.toNat_zero]
      omega
    simp [hpos, hl]

end Introduction

/-! ### `IntroSet` -/

namespace IntroSet

variable (inet : Inet6) (inet4 : Inet4) (bt : BtString) (srv : SrvCodec)

namespace Entry

/-- What `DecodeKey` makes of an entry in the descriptor read so far: the service and each
introduction are read into the value there and into a fresh one, the lists and the set are
added to. -/
def step (acc : IntroSet) : Entry → IntroSet
  | addressKeys si =>
    { acc with addressKeys := (ServiceInfo.entries si).foldl ServiceInfo.Entry.step acc.addressKeys }
  | exitPolicy p => { acc with exitTrafficPolicy := some p }
  | intros l =>
    { acc with intros := acc.intros ++ l.map Introduction.readBack }
  | sntrupKey k => { acc with sntrupKey := k }
  | topic t => { acc with topic := t }
  | protocols ps => { acc with supportedProtocols := acc.supportedProtocols ++ ps }
  | ranges rs => { acc with ownedRanges := acc.ownedRanges ++ rs }
  | srvs s => { acc with srvs := s }
  | timestamp t => { acc with timestampSignedAt := t }
  | version v => { acc with version := v }
  | signature s => { acc with signature := s }

/-- What an entry needs to be read back: the exit policy reads back, the ranges' texts parse
back, and the SRV records go through the serializer and back. -/
def Valid : Entry → Prop
  | exitPolicy p => TrafficPolicy.ReadsBack inet inet4 bt p
  | ranges rs => ∀ r ∈ rs, IPRange.TextReads inet inet4 bt r (some r)
  | srvs s => BtReads srv.serialize srv.deserialize s
  | _ => True

theorem length_key (x : Entry) : x.key.length = 1 := by
  cases x <;> rfl

/-- `IntroSet::DecodeKey` reads each entry but the ranges into any descriptor. -/
theorem readsEntry {x : Entry} (hx : x.Valid inet inet4 bt srv) (hr : ∀ rs, x ≠ ranges rs) :
    ReadsEntry (IntroSet.decodeKey inet inet4 bt srv) key (enc inet inet4 bt srv) step x := by
  refine ⟨by rw [length_key]; decide, fun acc b rest h => ?_⟩
  cases x with
  | addressKeys si =>
    simp +decide only [IntroSet.decodeKey, key, ↓reduceIte]
    simp [bind_of_some (ServiceInfo.bDecode_of_drop si acc.addressKeys h), step, enc]
  | exitPolicy p =>
    simp +decide only [IntroSet.decodeKey, key, ↓reduceIte]
    simp [bind_of_some (TrafficPolicy.bDecode_of_drop inet inet4 bt p hx h), step, enc]
  | intros l =>
    have hd : b.mem.drop b.cur = 108 :: ((l.map Introduction.enc).flatten ++ 101 :: rest) := by
      simpa [enc] using h
    have hread : bEncodeReadList (Introduction.bDecode Introduction.empty) acc.intros b =
        some (some (acc.intros ++ l.map Introduction.readBack),
          { b with cur := b.cur + (l.map Introduction.enc).flatten.length + 2 }) :=
      bEncodeReadList_of_drop (fun i _ => Introduction.enc_head i)
        (fun i _ b rest hb => Introduction.bDecode_of_drop i Introduction.empty hb) hd
    simp +decide only [IntroSet.decodeKey, key, ↓reduceIte]
    simp [bind_of_some hread, step, enc, Nat.add_assoc]
  | sntrupKey k =>
    simp +decide only [IntroSet.decodeKey, key, ↓reduceIte]
    simp [bind_of_some (Router.AlignedBuffer.bDecode_of_drop (by decide) h), step, enc]
  | topic t =>
    simp +decide only [IntroSet.decodeKey, key, ↓reduceIte]
    simp [bind_of_some (Router.AlignedBuffer.bDecode_of_drop (by decide) h), step, enc]
  | protocols ps =>
    have hd : b.mem.drop b.cur = 108 :: ((ps.map integerEnc).flatten ++ 101 :: rest) := by
      simpa [enc] using h
    simp +decide only [IntroSet.decodeKey, key, ↓reduceIte]
    rw [bind_apply, bencodeReadList_of_drop (fun v _ => readsItem_append_integer ?_ v) hd,
      foldl_append_singleton]
    · simp [step, enc, Nat.add_assoc]
    · intro vals v b rest hb
      simp [bind_of_some (bencodeReadInteger_of_drop hb)]
  | ranges rs => exact absurd rfl (hr rs)
  | srvs s =>
    -- the serializer's bytes are skipped as a value and handed back to the deserializer
    obtain ⟨hskip, hback⟩ := BtReads.discard hx h
    simp +decide only [IntroSet.decodeKey, key, ↓reduceIte]
    simp [bind_of_some hskip, hback, step, enc, Functor.map, StateT.map]
  | timestamp t =>
    simp +decide only [IntroSet.decodeKey, key, ↓reduceIte]
    simp [bind_of_some (bencodeReadInteger_of_drop h), step, enc]
  | version v =>
    simp +decide only [IntroSet.decodeKey, key, ↓reduceIte]
    simp [bind_of_some (bencodeReadInteger_of_drop h), step, enc]
  | signature s =>
    simp +decide only [IntroSet.decodeKey, key, ↓reduceIte]
    simp [bind_of_some (Router.AlignedBuffer.bDecode_of_drop (by decide) h), step, enc]

/-- The ranges are read into a descriptor whose ranges they come after. -/
theorem decodeKey_ranges {rs : List IPRange} (hx : (ranges rs).Valid inet inet4 bt srv)
    {acc : IntroSet} (hchain : (acc.ownedRanges ++ rs).Pairwise (StdSet.Precedes IPRange.lt))
    {b : LlarpBuffer} {rest : List UInt8} (h : b.mem.drop b.cur = enc inet inet4 bt srv (ranges rs) ++ rest) :
    IntroSet.decodeKey inet inet4 bt srv acc (key (ranges rs)) b =
      some (some (step acc (ranges rs)),
        { b with cur := b.cur + (enc inet inet4 bt srv (ranges rs)).length }) := by
  have hd : b.mem.drop b.cur =
      108 :: ((rs.map (IPRange.enc inet inet4 bt)).flatten ++ 101 :: rest) := by
    simpa [enc] using h
  simp +decide only [IntroSet.decodeKey, key, ↓reduceIte]
  simp [bind_of_some (IPRange.bEncodeReadSet_of_drop inet inet4 bt hx hchain hd), step, enc,
    Nat.add_assoc]

end Entry

/-- What a descriptor must be for `BDecode` to read back exactly what `BEncode` wrote: the
service's version is the protocol's, no introduction's latency is negative, the exit policy and
the owned ranges read back, and the SRV records go through the serializer and back. -/
structure ReadsBack (i : IntroSet) : Prop where
  version : i.addressKeys.version = llarpProtoVersion
  latency : ∀ intro ∈ i.intros, intro.latency < 0x8000000000000000
  exitPolicy : ∀ p ∈ i.exitTrafficPolicy, TrafficPolicy.ReadsBack inet inet4 bt p
  ranges_chain : i.ownedRanges.Pairwise (StdSet.Precedes IPRange.lt)
  ranges_text : ∀ r ∈ i.ownedRanges, IPRange.TextReads inet inet4 bt r (some r)
  srvs : i.srvs ≠ [] → BtReads srv.serialize srv.deserialize i.srvs

variable {inet inet4 bt srv}

theorem valid_entries {i : IntroSet} (hi : ReadsBack inet inet4 bt srv i) :
    ∀ x ∈ entries i, x.Valid inet inet4 bt srv := by
  intro x hx
  cases x with
  | exitPolicy p =>
    have hp : p ∈ i.exitTrafficPolicy := by simpa [entries] using hx
    exact hi.exitPolicy p hp
  | ranges rs =>
    obtain ⟨-, rfl⟩ : ¬i.ownedRanges = [] ∧ rs = i.ownedRanges := by simpa [entries] using hx
    exact hi.ranges_text
  | srvs s =>
    obtain ⟨hne, rfl⟩ : ¬i.srvs = [] ∧ s = i.srvs := by simpa [entries] using hx
    exact hi.srvs hne
  | _ => trivial

/-- Entries other than the ranges leave the ranges read so far as they are. -/
theorem foldl_step_ownedRanges {xs : List Entry} (hxs : ∀ x ∈ xs, ∀ rs, x ≠ Entry.ranges rs)
    (acc : IntroSet) : (xs.foldl Entry.step acc).ownedRanges = acc.ownedRanges := by
  induction xs generalizing acc with
  | nil => rfl
  | cons x xs ih =>
    rw [List.foldl_cons, ih (fun y hy => hxs y (List.mem_cons_of_mem x hy))]
    cases x with
    | ranges rs => exact absurd rfl (hxs _ List.mem_cons_self rs)
    | _ => rfl

/-- The entries `BEncode` writes before the ranges. -/
def entriesBefore (i : IntroSet) : List Entry :=
  [Entry.addressKeys i.addressKeys] ++ i.exitTrafficPolicy.toList.map Entry.exitPolicy ++
    [Entry.intros i.intros, Entry.sntrupKey i.sntrupKey] ++
    (if i.topic.bytes.isEmpty then [] else [Entry.topic i.topic]) ++
    (if i.supportedProtocols.isEmpty then [] else [Entry.protocols i.supportedProtocols])

/-- The entries `BEncode` writes after the ranges. -/
def entriesAfter (i : IntroSet) : List Entry :=
  (if i.srvs.isEmpty then [] else [Entry.srvs i.srvs]) ++
    [Entry.timestamp i.timestampSignedAt, Entry.version i.version, Entry.signature i.signature]

theorem entries_eq (i : IntroSet) :
    entries i = entriesBefore i ++
      ((if i.ownedRanges.isEmpty then [] else [Entry.ranges i.ownedRanges]) ++ entriesAfter i) := by
  simp only [entries, entriesBefore, entriesAfter, List.append_assoc]

theorem ne_ranges_of_mem_before {i : IntroSet} {x : Entry} (hx : x ∈ entriesBefore i) :
    ∀ rs, x ≠ Entry.ranges rs := by
  rintro rs rfl
  simp [entriesBefore] at hx

theorem ne_ranges_of_mem_after {i : IntroSet} {x : Entry} (hx : x ∈ entriesAfter i) :
    ∀ rs, x ≠ Entry.ranges rs := by
  rintro rs rfl
  simp [entriesAfter] at hx

/-- The entries before the ranges need only the exit policy to read back. -/
theorem valid_of_mem_before {i : IntroSet}
    (hexit : ∀ p ∈ i.exitTrafficPolicy, TrafficPolicy.ReadsBack inet inet4 bt p) {x : Entry}
    (hx : x ∈ entriesBefore i) : x.Valid inet inet4 bt srv := by
  cases x with
  | exitPolicy p => exact hexit p (by simpa [entriesBefore] using hx)
  | ranges rs => exact absurd rfl (ne_ranges_of_mem_before hx rs)
  | srvs s => simp [entriesBefore] at hx
  | _ => trivial

/-- `IntroSet::DecodeKey` reads the entries `BEncode` writes one after another into the empty
descriptor: the ranges, which come once, go into the empty set. -/
theorem readsEntries {i : IntroSet} (hi : ReadsBack inet inet4 bt srv i) :
    ReadsEntries (IntroSet.decodeKey inet inet4 bt srv) Entry.key (Entry.enc inet inet4 bt srv) Entry.step
      IntroSet.empty (entries i) := by
  have hvalid := valid_entries hi
  rw [entries_eq] at hvalid ⊢
  -- the entries before the ranges and those after them are read into any descriptor
  have hbefore : ∀ x ∈ entriesBefore i, ReadsEntry (IntroSet.decodeKey inet inet4 bt srv) Entry.key
      (Entry.enc inet inet4 bt srv) Entry.step x := fun x hx =>
    Entry.readsEntry inet inet4 bt srv (hvalid x (by simp [hx])) (ne_ranges_of_mem_before hx)
  have hafter : ∀ x ∈ entriesAfter i, ReadsEntry (IntroSet.decodeKey inet inet4 bt srv) Entry.key
      (Entry.enc inet inet4 bt srv) Entry.step x := fun x hx =>
    Entry.readsEntry inet inet4 bt srv (hvalid x (by simp [hx])) (ne_ranges_of_mem_after hx)
  refine ReadsEntries.append_reads (ReadsEntries.of_forall hbefore) ?_
  refine ReadsEntries.append_reads ?_ (ReadsEntries.of_forall hafter)
  have hnone : ((entriesBefore i).foldl Entry.step IntroSet.empty).ownedRanges = [] :=
    (foldl_step_ownedRanges (fun x hx => ne_ranges_of_mem_before hx) _).trans rfl
  split
  · trivial
  · refine ⟨⟨by rw [Entry.length_key]; decide, fun b rest h => ?_⟩, trivial⟩
    exact Entry.decodeKey_ranges inet inet4 bt srv hi.ranges_text
      (by simpa [hnone] using hi.ranges_chain) h

/-- Reading the entries of a descriptor that reads back into the empty one gives it back. -/
theorem foldl_step_entries {i : IntroSet} (hi : ReadsBack inet inet4 bt srv i) :
    (entries i).foldl Entry.step IntroSet.empty = i := by
  have hsi := ServiceInfo.foldl_step_entries_empty hi.version
  have hintros : i.intros.map Introduction.readBack = i.intros :=
    calc i.intros.map Introduction.readBack
        = i.intros.map id := List.map_congr_left fun intro hintro =>
          Introduction.readBack_of_latency (hi.latency intro hintro)
      _ = i.intros := List.map_id _
  have htopic : i.topic.bytes.isEmpty = false := by
    simp [← List.length_eq_zero_iff, i.topic.length_eq]
  obtain ⟨ak, intros, k, topic, srvs, ts, ps, rs, ex, sig, v⟩ := i
  simp only at hsi hintros htopic
  cases ex <;> cases ps <;> cases rs <;> cases srvs <;>
    simp [entries, Entry.step, IntroSet.empty, hsi, hintros, htopic]

/-- `IntroSet::BDecode`, into the empty descriptor `MaybeDecrypt` starts from, reads back a
descriptor that reads back from what `BEncode` wrote, whatever follows it. -/
theorem bDecode_of_drop {i : IntroSet} (hi : ReadsBack inet inet4 bt srv i) {b : LlarpBuffer}
    {rest : List UInt8} (h : b.mem.drop b.cur = enc inet inet4 bt srv i ++ rest) :
    IntroSet.empty.bDecode inet inet4 bt srv b =
      some (some i, { b with cur := b.cur + (enc inet inet4 bt srv i).length }) := by
  have hd : b.mem.drop b.cur = 100 ::
      (((entries i).map (entryEnc Entry.key (Entry.enc inet inet4 bt srv))).flatten ++ 101 :: rest) := by
    simpa [enc] using h
  rw [IntroSet.bDecode, bencodeDecodeDict, bencodeReadDict_of_reads (readsEntries hi) hd,
    foldl_step_entries hi]
  simp [enc, Nat.add_assoc]

/-- Two owned ranges whose texts parse to one range stop `IntroSet::BDecode` with `false` at the
ranges, after the entries before them: `BEncodeReadSet` refuses the second. The ranges before
the duplicate come back as a chain, and the exit policy, which comes first, reads back. -/
theorem bDecode_stops_of_duplicate {i : IntroSet} {rs₁ rs₂ : List IPRange} {r : IPRange}
    {f : IPRange → IPRange} (hranges : i.ownedRanges = rs₁ ++ r :: rs₂)
    (htext : ∀ x ∈ rs₁ ++ [r], IPRange.TextReads inet inet4 bt x (some (f x)))
    (hchain : (rs₁.map f).Pairwise (StdSet.Precedes IPRange.lt))
    (hdup : (StdSet.emplace IPRange.lt (rs₁.map f) (f r)).2 = false)
    (hexit : ∀ p ∈ i.exitTrafficPolicy, TrafficPolicy.ReadsBack inet inet4 bt p) {b : LlarpBuffer}
    {rest : List UInt8} (h : b.mem.drop b.cur = enc inet inet4 bt srv i ++ rest) :
    ∃ b', IntroSet.empty.bDecode inet inet4 bt srv b = some (none, b') := by
  have hne : i.ownedRanges.isEmpty = false := by simp [hranges]
  -- the dict: the entries before the ranges, the key `r`, and the list the set reader stops in
  have hd : b.mem.drop b.cur = 100 ::
      (((entriesBefore i).map (entryEnc Entry.key (Entry.enc inet inet4 bt srv))).flatten ++
        (bytestringEnc (ascii "r") ++ (108 :: (((rs₁.map (IPRange.enc inet inet4 bt)).flatten ++
          (IPRange.enc inet inet4 bt r ++ ((rs₂.map (IPRange.enc inet inet4 bt)).flatten ++ 101 ::
            (((entriesAfter i).map (entryEnc Entry.key (Entry.enc inet inet4 bt srv))).flatten ++
              101 :: rest)))))))) := by
    rw [h, enc, entries_eq, hne]
    simp [entryEnc, Entry.key, Entry.enc, hranges]
  have hreads : ReadsEntries (IntroSet.decodeKey inet inet4 bt srv) Entry.key
      (Entry.enc inet inet4 bt srv) Entry.step IntroSet.empty (entriesBefore i) :=
    ReadsEntries.of_forall fun x hx =>
      Entry.readsEntry inet inet4 bt srv (valid_of_mem_before hexit hx) (ne_ranges_of_mem_before hx)
  have hnone : ((entriesBefore i).foldl Entry.step IntroSet.empty).ownedRanges = [] :=
    (foldl_step_ownedRanges (fun x hx => ne_ranges_of_mem_before hx) _).trans rfl
  rw [IntroSet.bDecode, bencodeDecodeDict]
  refine bencodeReadDict_stops hreads (by decide) (fun b' hb' => ?_) hd
  -- the set reader stops at `r`, and `DecodeKey` with it
  have hchain' : ([] ++ rs₁.map f).Pairwise (StdSet.Precedes IPRange.lt) := by simpa using hchain
  have hset := bEncodeReadSet_stops (fun x hx => IPRange.enc_head inet inet4 bt (htext x hx))
    (fun x hx b rest hb => IPRange.bDecode_of_drop inet inet4 bt (htext x hx) hb)
    hchain' (by simpa using hdup) (by simpa using hb')
  obtain ⟨b'', hb''⟩ := hset
  refine ⟨b'', ?_⟩
  simp +decide only [IntroSet.decodeKey, ↓reduceIte]
  simp [hnone, bind_of_some hb'']

end IntroSet

end Lokinet.Proofs.Service
