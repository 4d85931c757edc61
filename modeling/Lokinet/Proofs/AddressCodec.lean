import Lokinet.Router.Contact
import Lokinet.Proofs.BencodeCodec

/-!
The codecs a `RouterContact` is built from: fixed-size buffers, `AddressInfo` and
`RouterVersion`. Each writer, when it succeeds, emits the wire form of its value, and the
matching reader takes the value back from wherever that form starts. A buffer holding a padded
C string and a version come back whole; an address comes back with its dialect cut at the first
NUL.
-/

namespace Lokinet.Proofs.Router

open Lokinet.Util Lokinet.Net Lokinet.Router FaultState LlarpBuffer Lokinet.Proofs.Bencode

/-- `BEncodeWriteList` writes `l`, the elements, `e`; the closing byte makes it clean. -/
theorem clean_bEncodeWriteList {α : Type} {xs : List α} {w : α → BufferM Bool}
    {f : α → List UInt8} (h : ∀ x ∈ xs, Emits (w x) (f x)) :
    Clean (bEncodeWriteList (xs.map w)) (108 :: ((xs.map f).flatten ++ [101])) := by
  have hs : Emits (writeSeq (xs.flatMap fun x => [w x])) (xs.map f).flatten :=
    Emits.flatMap fun x hx => Emits.singleton (h x hx)
  rw [← List.map_eq_flatMap] at hs
  simpa [bEncodeWriteList, bencodeStartList] using BValue.clean_container hs

theorem puts_bEncodeWriteList {α : Type} {xs : List α} {w : α → BufferM Bool}
    {f : α → List UInt8} (h : ∀ x ∈ xs, Puts (w x) (f x)) :
    Puts (bEncodeWriteList (xs.map w)) (108 :: ((xs.map f).flatten ++ [101])) := by
  simpa [bEncodeWriteList, bencodeStartList] using Puts.container 108 (Puts.map h)

/-! ### Fixed-size buffers -/

section Aligned

variable {sz : Nat} {b : LlarpBuffer} {rest : List UInt8}

theorem AlignedBuffer.bDecode_of_drop {a : AlignedBuffer sz} (hsz : sz < 10 ^ 9)
    (h : b.mem.drop b.cur = bytestringEnc a.bytes ++ rest) :
    AlignedBuffer.bDecode b =
      some (some a, { b with cur := b.cur + (bytestringEnc a.bytes).length }) := by
  have hs : a.bytes.length < 10 ^ 9 := by rw [a.length_eq]; exact hsz
  simp [AlignedBuffer.bDecode, bind_of_some (bencodeReadString_of_drop hs h),
    AlignedBuffer.fromBytestring, a.length_eq]

/-- A buffer of at least one byte is never read where an integer starts. -/
theorem AlignedBuffer.bDecode_of_integer (hsz : sz ≠ 0) {t : List UInt8}
    (h : b.mem.drop b.cur = 105 :: t) (a : AlignedBuffer sz) (b' : LlarpBuffer) :
    AlignedBuffer.bDecode b ≠ some (some a, b') := by
  intro hr
  obtain ⟨o, b₁, hread, hr⟩ := bind_eq_some.mp hr
  cases o with
  | none => simp at hr
  | some s =>
    obtain rfl := bencodeReadString_of_integer h hread
    simp [AlignedBuffer.fromBytestring, Ne.symm hsz] at hr

/-- The buffer holds a C string padded with NULs: past the first NUL there is nothing else. -/
def NulPadded (a : AlignedBuffer sz) : Prop :=
  a.bytes = a.cstr ++ List.replicate (sz - a.cstr.length) 0

theorem AlignedBuffer.length_cstr_le (a : AlignedBuffer sz) : a.cstr.length ≤ sz :=
  calc a.cstr.length ≤ a.bytes.length := (List.takeWhile_sublist _).length_le
    _ = sz := a.length_eq

theorem NulPadded.eq_zero {a : AlignedBuffer sz} (ha : NulPadded a) (h : a.cstr = []) :
    a = AlignedBuffer.zero sz := by
  ext1
  rw [ha, h]
  simp [AlignedBuffer.zero]

/-- `NetID::BDecode`, and the decoder of the nickname, read a padded C string back from the
bytes its encoder wrote: the string up to the NUL. -/
theorem NulPadded.bDecodePrefix_of_drop {a : AlignedBuffer sz} (ha : NulPadded a)
    (hsz : sz < 10 ^ 9) (h : b.mem.drop b.cur = bytestringEnc a.cstr ++ rest) :
    AlignedBuffer.bDecodePrefix b =
      some (some a, { b with cur := b.cur + (bytestringEnc a.cstr).length }) := by
  have hle := AlignedBuffer.length_cstr_le a
  have hs : a.cstr.length < 10 ^ 9 := Nat.lt_of_le_of_lt hle hsz
  have hpre : AlignedBuffer.ofPrefix a.cstr hle = a := AlignedBuffer.ext ha.symm
  simp [AlignedBuffer.bDecodePrefix, bind_of_some (bencodeReadString_of_drop hs h), hle, hpre]

end Aligned

/-! ### `AddressInfo` -/

namespace AddressInfo

/-- What the round trip asks of an address: a rank and a port the decoder accepts, and a
dialect that fits `tmp` with its NUL. -/
structure WellFormed (ai : AddressInfo) : Prop where
  rank_pos : 0 < ai.rank
  port_pos : 0 < ai.port
  length_dialect : ai.dialect.length < 128

/-- What `DecodeKey` makes of an address it reads back: the dialect up to its first NUL, as
`std::string(tmp)` has it. -/
def normalize (ai : AddressInfo) : AddressInfo :=
  { ai with dialect := ai.dialect.takeWhile (· ≠ 0) }

/-- The entries of the dict `AddressInfo::BEncode` writes. -/
inductive Entry where
  | rank (r : UInt16)
  | dialect (d : List UInt8)
  | pubkey (k : AlignedBuffer 32)
  | ip (a : AlignedBuffer 16)
  | port (p : UInt16)
  | version

namespace Entry

def key : Entry → List UInt8
  | rank _ => ascii "c"
  | dialect _ => ascii "d"
  | pubkey _ => ascii "e"
  | ip _ => ascii "i"
  | port _ => ascii "p"
  | version => ascii "v"

/-- The wire form of the value; the address goes as its `inet_ntop` text. -/
def enc (inet : Inet6) : Entry → List UInt8
  | rank r => integerEnc r.toUInt64
  | dialect d => bytestringEnc d
  | pubkey k => bytestringEnc k.bytes
  | ip a => bytestringEnc (inet.ntop a)
  | port p => integerEnc p.toUInt64
  | version => integerEnc llarpProtoVersion

/-- The writer calls `BEncode` makes for the entry, key first. -/
def writers (inet : Inet6) : Entry → List (BufferM Bool)
  | rank r => [bencodeWriteBytestring (ascii "c"), bencodeWriteUint64 r.toUInt64]
  | dialect d => [bencodeWriteBytestring (ascii "d"), bencodeWriteBytestring d]
  | pubkey k => [bencodeWriteBytestring (ascii "e"), bencodeWriteBytestring k.bytes]
  | ip a => [bencodeWriteBytestring (ascii "i"), bencodeWriteBytestring (inet.ntop a)]
  | port p => [bencodeWriteBytestring (ascii "p"), bencodeWriteUint64 p.toUInt64]
  | version => [bencodeWriteUint64Entry (ascii "v") llarpProtoVersion]

/-- What `DecodeKey` does with the entry. -/
def step (ai : AddressInfo) : Entry → AddressInfo
  | rank r => { ai with rank := r }
  | dialect d => { ai with dialect := d.takeWhile (· ≠ 0) }
  | pubkey k => { ai with pubkey := k }
  | ip a => { ai with ip := a }
  | port p => { ai with port := p }
  | version => ai

theorem length_key (x : Entry) : x.key.length = 1 := by
  cases x <;> rfl

theorem emits_writers (inet : Inet6) (x : Entry) :
    Emits (writeSeq (x.writers inet)) (entryEnc key (enc inet) x) := by
  cases x with
  | rank r => exact Emits.pair (clean_bencodeWriteUint64 _).emits _
  | dialect d => exact Emits.pair (emits_bencodeWriteBytestring _) _
  | pubkey k => exact Emits.pair (emits_bencodeWriteBytestring _) _
  | ip a => exact Emits.pair (emits_bencodeWriteBytestring _) _
  | port p => exact Emits.pair (clean_bencodeWriteUint64 _).emits _
  | version => exact Emits.singleton (emits_bencodeWriteUint64Entry _ _)

theorem puts_writers (inet : Inet6) (x : Entry) :
    Puts (writeSeq (x.writers inet)) (entryEnc key (enc inet) x) := by
  cases x with
  | rank r => exact Puts.pair (puts_bencodeWriteUint64 _) _
  | dialect d => exact Puts.pair (puts_bencodeWriteBytestring _) _
  | pubkey k => exact Puts.pair (puts_bencodeWriteBytestring _) _
  | ip a => exact Puts.pair (puts_bencodeWriteBytestring _) _
  | port p => exact Puts.pair (puts_bencodeWriteUint64 _) _
  | version => exact Puts.singleton (puts_bencodeWriteUint64Entry _ _)

end Entry

def entries (ai : AddressInfo) : List Entry :=
  [.rank ai.rank, .dialect ai.dialect, .pubkey ai.pubkey, .ip ai.ip, .port ai.port, .version]

/-- The bytes `AddressInfo::BEncode` means to write. -/
def enc (inet : Inet6) (ai : AddressInfo) : List UInt8 :=
  100 :: (((entries ai).map (entryEnc Entry.key (Entry.enc inet))).flatten ++ [101])

variable (inet : Inet6)

theorem bEncode_eq (ai : AddressInfo) :
    AddressInfo.bEncode inet ai =
      writeSeq (bencodeStartDict :: ((entries ai).flatMap (Entry.writers inet) ++ [bencodeEnd])) :=
  rfl

theorem clean_bEncode (ai : AddressInfo) : Clean (AddressInfo.bEncode inet ai) (enc inet ai) := by
  rw [bEncode_eq]
  exact BValue.clean_container (Emits.flatMap fun x _ => Entry.emits_writers inet x)

theorem puts_bEncode (ai : AddressInfo) : Puts (AddressInfo.bEncode inet ai) (enc inet ai) := by
  rw [bEncode_eq]
  exact Puts.container 100 (Puts.flatMap fun x _ => Entry.puts_writers inet x)

theorem enc_head (ai : AddressInfo) : ∃ c cs, enc inet ai = c :: cs ∧ c ≠ 101 :=
  ⟨100, _, rfl, by decide⟩

variable {b : LlarpBuffer} {rest : List UInt8}

/-- A rank or a port in `1..65535` is read back as it was written. -/
theorem decodeUint16_of_drop {r : UInt16} (hr : 0 < r)
    (h : b.mem.drop b.cur = integerEnc r.toUInt64 ++ rest) :
    AddressInfo.decodeUint16 b =
      some (some r, { b with cur := b.cur + (integerEnc r.toUInt64).length }) := by
  have hpos : 0 < r.toNat := UInt16.lt_iff_toNat_lt.mp hr
  have hlt := r.toNat_lt
  have hle : r.toUInt64 ≤ 65536 := UInt64.le_iff_toNat_le.mpr (by simp; omega)
  have hne : r.toUInt64 ≠ 0 := fun h0 => by
    have := congrArg UInt64.toNat h0
    simp at this
    omega
  simp [AddressInfo.decodeUint16, bind_of_some (bencodeReadInteger_of_drop h), hle, hne]

/-- What an entry of a well-formed address needs for `DecodeKey` to read it. -/
def Entry.Valid : Entry → Prop
  | .rank r => 0 < r
  | .dialect d => d.length < 128
  | .port p => 0 < p
  | _ => True

theorem valid_entries {ai : AddressInfo} (hai : WellFormed ai) : ∀ x ∈ entries ai, x.Valid := by
  intro x hx
  simp only [entries, List.mem_cons, List.mem_nil_iff, or_false] at hx
  rcases hx with rfl | rfl | rfl | rfl | rfl | rfl
  · exact hai.rank_pos
  · exact hai.length_dialect
  · trivial
  · trivial
  · exact hai.port_pos
  · trivial

/-- `AddressInfo::DecodeKey` reads each entry `BEncode` writes. The keys are distinct letters,
so exactly one test of the chain holds. -/
theorem readsEntry {x : Entry} (hx : x.Valid) :
    ReadsEntry (AddressInfo.decodeKey inet) Entry.key (Entry.enc inet) Entry.step x := by
  refine ⟨by rw [Entry.length_key]; decide, fun acc b rest h => ?_⟩
  cases x with
  | rank r =>
    simp +decide only [AddressInfo.decodeKey, Entry.key, ↓reduceIte]
    simp [bind_of_some (decodeUint16_of_drop hx h), Entry.step, Entry.enc]
  | dialect d =>
    have hs : d.length < 10 ^ 9 := by simp only [Entry.Valid] at hx; omega
    have hgt : ¬d.length > 128 := by simp only [Entry.Valid] at hx; omega
    have hne : d.length ≠ 128 := by simp only [Entry.Valid] at hx; omega
    simp +decide only [AddressInfo.decodeKey, Entry.key, ↓reduceIte]
    simp [bind_of_some (bencodeReadString_of_drop hs h), hgt, hne, Entry.step, Entry.enc]
  | pubkey k =>
    simp +decide only [AddressInfo.decodeKey, Entry.key, ↓reduceIte]
    simp [bind_of_some (AlignedBuffer.bDecode_of_drop (by decide) h), Entry.step, Entry.enc]
  | ip a =>
    have hlen := inet.length_ntop a
    have hs : (inet.ntop a).length < 10 ^ 9 := by omega
    have hge : ¬(inet.ntop a).length ≥ 128 := by omega
    -- the text has no NUL, so the whole of it goes to `inet_pton`
    have htake : (inet.ntop a).takeWhile (fun c => !decide (c = 0)) = inet.ntop a :=
      List.takeWhile_eq_self_iff.mpr fun c hc => by simpa using inet.ntop_ne_nul a c hc
    simp +decide only [AddressInfo.decodeKey, Entry.key, ↓reduceIte]
    simp [bind_of_some (bencodeReadString_of_drop hs h), hge, htake, inet.pton_ntop, Entry.step,
      Entry.enc]
  | port p =>
    simp +decide only [AddressInfo.decodeKey, Entry.key, ↓reduceIte]
    simp [bind_of_some (decodeUint16_of_drop hx h), Entry.step, Entry.enc]
  | version =>
    simp +decide only [AddressInfo.decodeKey, ↓reduceIte]
    simp [bind_of_some (bencodeReadInteger_of_drop h), Entry.step, Entry.enc]

/-- `AddressInfo::BDecode` reads a well-formed address back from what `BEncode` wrote, up to
the first NUL of its dialect, whatever it starts from. -/
theorem bDecode_of_drop {ai : AddressInfo} (hai : WellFormed ai) (acc : AddressInfo)
    (h : b.mem.drop b.cur = enc inet ai ++ rest) :
    AddressInfo.bDecode inet acc b =
      some (some (normalize ai), { b with cur := b.cur + (enc inet ai).length }) := by
  have hd : b.mem.drop b.cur =
      100 :: (((entries ai).map (entryEnc Entry.key (Entry.enc inet))).flatten ++ 101 :: rest) := by
    simpa [enc] using h
  rw [AddressInfo.bDecode, bencodeDecodeDict,
    bencodeReadDict_of_drop (fun x hx => readsEntry inet (valid_entries hai x hx)) hd]
  simp only [enc, List.length_cons, List.length_append, pure_apply]
  congr 3

end AddressInfo

/-! ### `RouterVersion` -/

namespace RouterVersion

/-- The integers `RouterVersion::BEncode` writes: none for an empty version, else the protocol
version and the three numbers. -/
def items (r : RouterVersion) : List UInt64 :=
  if r.isEmpty then [] else r.protoVersion :: r.version.map UInt16.toUInt64

def enc (r : RouterVersion) : List UInt8 := 108 :: (((items r).map integerEnc).flatten ++ [101])

theorem bEncode_eq (r : RouterVersion) :
    r.bEncode = bEncodeWriteList ((items r).map bencodeWriteUint64) := by
  unfold RouterVersion.bEncode items
  split <;> simp [Function.comp_def]

theorem clean_bEncode (r : RouterVersion) : Clean r.bEncode (enc r) := by
  rw [bEncode_eq]
  exact clean_bEncodeWriteList fun i _ => (clean_bencodeWriteUint64 i).emits

theorem puts_bEncode (r : RouterVersion) : Puts r.bEncode (enc r) := by
  rw [bEncode_eq]
  exact puts_bEncodeWriteList fun i _ => puts_bencodeWriteUint64 i

theorem eq_empty_of_isEmpty {r : RouterVersion} (h : r.isEmpty) : r = RouterVersion.empty := by
  obtain ⟨v, hv, p⟩ := r
  simp only [RouterVersion.isEmpty, Bool.and_eq_true, beq_iff_eq] at h
  obtain ⟨rfl, rfl⟩ := h
  rfl

/-- The sink of `RouterVersion::BDecode` on an integer, when it takes it: the first is the
protocol version, the next ones fill `m_Version` in order. -/
def step : Nat × RouterVersion → UInt64 → Nat × RouterVersion
  | (idx, r), i =>
    if idx = 0 then (1, { r with protoVersion := i })
    else (idx + 1, r.setVersion (idx - 1) i.toUInt16)

theorem step_fst (idx : Nat) (r : RouterVersion) (i : UInt64) :
    (step (idx, r) i).1 = if idx = 0 then 1 else idx + 1 := by
  simp only [step]
  split <;> rfl

/-- The sink takes every integer as long as no more than four come. -/
theorem readsAll_decodeItem (xs : List UInt64) :
    ∀ acc : Nat × RouterVersion, acc.1 + xs.length ≤ 4 →
      ReadsAll RouterVersion.decodeItem integerEnc step acc xs := by
  induction xs with
  | nil => intro _ _; trivial
  | cons x xs ih =>
    rintro ⟨idx, r⟩ hlen
    refine ⟨⟨⟨105, _, rfl, by decide⟩, fun b rest hb => ?_⟩, ih (step (idx, r) x) ?_⟩
    · simp only [RouterVersion.decodeItem, bind_of_some (bencodeReadInteger_of_drop hb)]
      by_cases h0 : idx = 0
      · simp [h0, step]
      · have h3 : ¬idx > 3 := by simp at hlen; omega
        simp [h0, h3, step]
    · rw [step_fst]
      simp only [List.length_cons] at hlen
      split <;> omega

theorem foldl_step_items (r : RouterVersion) :
    (items r).foldl step (0, RouterVersion.empty) =
      if r.isEmpty then (0, RouterVersion.empty) else (4, r) := by
  by_cases he : r.isEmpty
  · simp [items, he]
  · obtain ⟨v, hv, p⟩ := r
    obtain ⟨x, y, z, rfl⟩ : ∃ x y z, v = [x, y, z] := by
      match v, hv with
      | [x, y, z], _ => exact ⟨x, y, z, rfl⟩
    simp [items, he, step, RouterVersion.empty, RouterVersion.setVersion]

/-- `RouterVersion::BDecode` reads back what `BEncode` wrote: the empty list for the empty
version, otherwise all four integers. -/
theorem bDecode_of_drop (r : RouterVersion) {b : LlarpBuffer} {rest : List UInt8}
    (h : b.mem.drop b.cur = enc r ++ rest) :
    RouterVersion.bDecode b = some (some r, { b with cur := b.cur + (enc r).length }) := by
  have hd : b.mem.drop b.cur = 108 :: (((items r).map integerEnc).flatten ++ 101 :: rest) := by
    simpa [enc] using h
  have hlen : 0 + (items r).length ≤ 4 := by
    unfold items
    split <;> simp [r.length_version]
  have hread : bencodeReadList RouterVersion.decodeItem (fun acc => pure (some acc))
      (0, RouterVersion.empty) b = some (some ((items r).foldl step (0, RouterVersion.empty)),
        { b with cur := b.cur + ((items r).map integerEnc).flatten.length + 2 }) :=
    bencodeReadList_of_reads (readsAll_decodeItem _ (0, RouterVersion.empty) hlen) hd
  simp only [RouterVersion.bDecode, bind_of_some hread, foldl_step_items]
  by_cases he : r.isEmpty
  · obtain rfl := eq_empty_of_isEmpty he
    simp [he, enc, Nat.add_assoc]
  · simp [he, enc]
    omega

end RouterVersion

end Lokinet.Proofs.Router
