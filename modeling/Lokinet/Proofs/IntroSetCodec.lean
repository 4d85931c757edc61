import Lokinet.Proofs.IntroSetDecode
import Lokinet.Proofs.RouterCodec

/-!
What the text of an `IPRange` keeps, and what that means for the sets of ranges an `IntroSet`
carries. The text of an IPv4 range is its low 32 address bits and the number of mask bits among
the low 32; `FromString` reads it back as the canonical range with those. Two ranges that differ
elsewhere print alike, and `BEncodeReadSet` then refuses the second one as a duplicate.

The comparators of the `std::set`s are disjunctions of per-field comparisons, and neither is a
strict weak order.
-/

namespace Lokinet.Proofs.Net

open Lokinet.Util Lokinet.Net Lokinet.Service Lokinet.Proofs.Bencode LlarpBuffer
open Lokinet.Proofs.Router.RouterContact (letterInet)

section DottedQuad

/-- `inet_ntop(AF_INET, ...)` as the C library writes it: four decimal bytes between dots. -/
def dottedQuad (a : AlignedBuffer 4) : List UInt8 :=
  [46].intercalate (a.bytes.map fun x => Decimal.decimal x.toNat)

/-- A reader of what `dottedQuad` writes: the values of the parts between dots. -/
def readDottedQuad (s : List UInt8) : Option (AlignedBuffer 4) :=
  let bs := (s.splitOn 46).map fun p => UInt8.ofNat (Decimal.value p)
  if h : bs.length = 4 then some ⟨bs, h⟩ else none

theorem mem_intercalate {α : Type} {sep : List α} {ls : List (List α)} {c : α}
    (h : c ∈ sep.intercalate ls) : c ∈ sep ∨ ∃ l ∈ ls, c ∈ l := by
  induction ls with
  | nil => simp at h
  | cons l ls ih =>
    cases ls with
    | nil => exact Or.inr ⟨l, List.mem_singleton_self l, by simpa using h⟩
    | cons l' ls =>
      rw [List.intercalate_cons_cons, List.mem_append, List.mem_append] at h
      rcases h with (h | h) | h
      · exact Or.inr ⟨l, List.mem_cons_self, h⟩
      · exact Or.inl h
      · rcases ih h with h | ⟨m, hm, hc⟩
        · exact Or.inl h
        · exact Or.inr ⟨m, List.mem_cons_of_mem _ hm, hc⟩

theorem dottedQuad_text (a : AlignedBuffer 4) : ∀ c ∈ dottedQuad a, c ≠ 0 ∧ c ≠ 47 ∧ c ≠ 58 := by
  intro c hc
  rcases mem_intercalate hc with h | ⟨p, hp, hcp⟩
  · obtain rfl := List.mem_singleton.mp h
    decide
  · obtain ⟨x, -, rfl⟩ := List.mem_map.mp hp
    have hd := Decimal.isDigit_decimal _ c hcp
    refine ⟨?_, ?_, ?_⟩ <;> rintro rfl <;> simp [Decimal.isDigit] at hd

theorem readDottedQuad_dottedQuad (a : AlignedBuffer 4) : readDottedQuad (dottedQuad a) = some a := by
  have hsep : ∀ p ∈ a.bytes.map (fun x => Decimal.decimal x.toNat), (46 : UInt8) ∉ p := by
    intro p hp h46
    obtain ⟨x, -, rfl⟩ := List.mem_map.mp hp
    simpa [Decimal.isDigit] using Decimal.isDigit_decimal _ 46 h46
  have hne : a.bytes.map (fun x => Decimal.decimal x.toNat) ≠ [] := by
    rw [Ne, List.map_eq_nil_iff, ← List.length_eq_zero_iff, a.length_eq]
    decide
  have hbytes : (a.bytes.map fun x => Decimal.decimal x.toNat).map
      (fun p => UInt8.ofNat (Decimal.value p)) = a.bytes := by
    simp [List.map_map, Function.comp_def, Decimal.value_decimal]
  unfold readDottedQuad dottedQuad
  simp only [List.splitOn_intercalate 46 hsep hne, hbytes, a.length_eq, ↓reduceDIte]

def dottedInet4 : Inet4 := ⟨dottedQuad, readDottedQuad, dottedQuad_text, readDottedQuad_dottedQuad⟩

end DottedQuad

section Text

variable (inet : Inet6) (inet4 : Inet4)

theorem countBits_le {w : Nat} (x : BitVec w) : countBits x ≤ w := by
  unfold countBits
  calc (List.range w).countP _ ≤ (List.range w).length := List.countP_le_length
    _ = w := List.length_range

theorem hostmaskBits_of_isV4 {r : IPRange} (hv : r.isV4 = true) :
    r.hostmaskBits = countBits (truncateV6 r.netmaskBits).toBitVec := by
  simp only [IPRange.hostmaskBits, hv, ↓reduceIte]

theorem splitAtSlash_append {s t : List UInt8} (hs : 47 ∉ s) :
    IPRange.splitAtSlash (s ++ 47 :: t) = (s, t) := by
  have hn : s.findIdx? (· == 47) = none := by
    refine List.findIdx?_eq_none_iff.mpr fun x hx => ?_
    have hx47 : x ≠ 47 := fun h => hs (h ▸ hx)
    simpa using hx47
  have hi : (s ++ 47 :: t).idxOf? 47 = some s.length := by
    simp [List.idxOf?, List.findIdx?_append, hn, List.findIdx?_cons]
  simp [IPRange.splitAtSlash, hi]

/-- `ToString` of an IPv4 range: the dotted quad of its low 32 bits and its mask bits among the
low 32. -/
theorem toString_of_isV4 {r : IPRange} (hv : r.isV4 = true) :
    IPRange.toString inet inet4 r =
      IPRange.v4ToString inet4 (truncateV6 r.addr) ++ 47 :: Decimal.decimal r.hostmaskBits := by
  simp only [IPRange.toString, IPRange.baseAddressString, hv, ↓reduceIte]

theorem hostmaskBits_le_of_isV4 {r : IPRange} (hv : r.isV4 = true) : r.hostmaskBits ≤ 32 := by
  rw [hostmaskBits_of_isV4 hv]
  exact countBits_le _

/-- `FromString` of an IPv4 text with a prefix of at most 32 bits: the mapped address and the
mask of `96 + k` bits. -/
theorem fromString_v4Text (a : UInt32) {k : Nat} (hk : k ≤ 32) :
    IPRange.fromString inet inet4 (IPRange.v4ToString inet4 a ++ 47 :: Decimal.decimal k) =
      some (some ⟨expandV4 a, netmaskIpv6Bits (96 + k)⟩) := by
  set s := IPRange.v4ToString inet4 a
  have htext : ∀ c ∈ s, c ≠ 0 ∧ c ≠ 47 ∧ c ≠ 58 := inet4.ntop_text _
  have hdigit : ∀ c ∈ Decimal.decimal k, c ≠ 58 := fun c hc h58 => by
    simpa [h58, Decimal.isDigit] using Decimal.isDigit_decimal k c hc
  have hsplit : IPRange.splitAtSlash (s ++ 47 :: Decimal.decimal k) = (s, Decimal.decimal k) :=
    splitAtSlash_append fun h47 => (htext 47 h47).2.1 rfl
  have hcolon : (s ++ 47 :: Decimal.decimal k).contains 58 = false := by
    have h58 : (58 : UInt8) ∉ s ++ 47 :: Decimal.decimal k := by
      simp only [List.mem_append, List.mem_cons, not_or]
      exact ⟨fun h => (htext 58 h).2.2 rfl, by decide, fun h => hdigit 58 h rfl⟩
    simpa using h58
  have htake : s.takeWhile (· ≠ 0) = s := List.takeWhile_eq_self_iff.mpr fun c hc => by
    simpa using (htext c hc).1
  have hpton : inet4.pton s = some ⟨BigEndian.bytes 4 a.toNat, BigEndian.length_bytes 4 _⟩ :=
    inet4.pton_ntop _
  have hval : UInt32.ofNat (BigEndian.value (BigEndian.bytes 4 a.toNat)) = a := by
    have hlt : a.toNat < 256 ^ 4 := a.toNat_lt
    rw [BigEndian.value_bytes, Nat.mod_eq_of_lt hlt, UInt32.ofNat_toNat]
  have hstoi : Decimal.stoi (Decimal.decimal k) = some (k : Int) := Decimal.stoi_decimal (by omega)
  have hne : (Decimal.decimal k).isEmpty = false := List.isEmpty_eq_false_iff.mpr (Decimal.decimal_ne_nil k)
  have hbits : ¬((k : Int) < 0 ∨ (k : Int) > 32) := by omega
  simp only [IPRange.fromString, hsplit, hcolon, htake, Bool.not_false, ↓reduceIte, hpton, hval, hne,
    Bool.false_eq_true, hstoi, Option.map_some, hbits, Int.toNat_natCast]

/-- The text of an IPv4 range reads back as the range of its low 32 address bits with a prefix
mask of as many bits as its mask has among the low 32. -/
theorem fromString_toString_v4 (r : IPRange) (hv : r.isV4 = true) :
    IPRange.fromString inet inet4 (IPRange.toString inet inet4 r) =
      some (some ⟨expandV4 (truncateV6 r.addr), netmaskIpv6Bits (96 + r.hostmaskBits)⟩) := by
  rw [toString_of_isV4 inet inet4 hv]
  exact fromString_v4Text inet inet4 _ (hostmaskBits_le_of_isV4 hv)

/-- `::ffff:0.0.0.0/64` and `0.0.0.0/0`: IPv4 ranges with no mask bit among the low 32, which
both print as `0.0.0.0/0`. -/
def mappedSlash64 : IPRange := ⟨expandV4 0, netmaskIpv6Bits 64⟩

def anyIPv4 : IPRange := ⟨expandV4 0, netmaskIpv6Bits 96⟩

set_option maxRecDepth 8000 in
theorem fromString_toString_mappedSlash64 :
    mappedSlash64.isV4 = true ∧
      IPRange.fromString letterInet dottedInet4 (IPRange.toString letterInet dottedInet4 mappedSlash64) =
        some (some ⟨expandV4 (truncateV6 mappedSlash64.addr),
          netmaskIpv6Bits (96 + mappedSlash64.hostmaskBits)⟩) :=
  ⟨by decide, fromString_toString_v4 letterInet dottedInet4 mappedSlash64 (by decide)⟩

end Text

section Order

/-- `::/128` and `8000::/1`. -/
def unspecifiedAddress : IPRange := ⟨0, netmaskIpv6Bits 128⟩

def upperHalf : IPRange := ⟨1#128 <<< 127, netmaskIpv6Bits 1⟩

/-- `tcp/80` and `udp/53`, their ports in network order. -/
def tcpHttp : ProtocolInfo := ⟨6, some (htons 80)⟩

def udpDns : ProtocolInfo := ⟨17, some (htons 53)⟩

set_option maxRecDepth 8000 in
theorem set_comparators_not_strict_weak_orders :
    ¬IsStrictWeakOrder IPRange (fun a b => IPRange.lt a b = true) ∧
      ¬IsStrictWeakOrder ProtocolInfo (fun a b => ProtocolInfo.lt a b = true) :=
  ⟨StdSet.not_isStrictWeakOrder_of_both IPRange.lt (x := unspecifiedAddress) (y := upperHalf)
      (by decide) (by decide),
    StdSet.not_isStrictWeakOrder_of_both ProtocolInfo.lt (x := tcpHttp) (y := udpDns)
      (by decide) (by decide)⟩

end Order

section DuplicateRanges

/-- An `IntroSet` that owns both ranges, inserted into its `std::set` one after the other. -/
def twoRangeIntroSet : IntroSet :=
  { IntroSet.empty with ownedRanges := StdSet.ofList IPRange.lt [mappedSlash64, anyIPv4] }

/-- An `IntroSet` without SRV records never calls the serializer. -/
def noSrvs : SrvCodec := ⟨fun _ => [108, 101], fun _ => some []⟩

/-- A string codec that keeps oxenmq's contract: the bencoded byte string, read back by the
string reader of the bencode API. -/
def bencodedStrings : BtString :=
  ⟨fun s => Decimal.decimal s.length ++ 58 :: s, fun data =>
    match bencodeReadString (ofBytes data) with
    | some (some s, _) => some s
    | _ => none⟩

theorem bencodedStrings_lawful : bencodedStrings.Lawful := by
  refine ⟨fun s => rfl, fun s hs => ?_⟩
  have hb : (ofBytes (bytestringEnc s)).mem.drop (ofBytes (bytestringEnc s)).cur =
      bytestringEnc s ++ [] := by
    simp [ofBytes]
  simp only [bencodedStrings]
  rw [show Decimal.decimal s.length ++ 58 :: s = bytestringEnc s from rfl,
    bencodeReadString_of_drop hs hb]

/-- The encoding of `twoRangeIntroSet`: its range list holds `0.0.0.0/0` twice. -/
def twoRangePayload : List UInt8 :=
  ascii "d1:ad1:e32:" ++ List.replicate 32 0 ++ ascii "1:s32:" ++ List.replicate 32 0 ++
    ascii "1:vi0ee1:ile1:k1218:" ++ List.replicate 1218 0 ++ ascii "1:n16:" ++
    List.replicate 16 0 ++ ascii "1:rl9:0.0.0.0/09:0.0.0.0/0e1:ti0e1:vi0e1:z64:" ++
    List.replicate 64 0 ++ ascii "e"

set_option maxRecDepth 8000 in
theorem duplicate_range_text_fails_decode (bt : BtString) (hbt : bt.Lawful) :
    twoRangeIntroSet.bEncode letterInet dottedInet4 bt noSrvs (ofBytes (List.replicate 4096 0)) =
        some (true, ⟨twoRangePayload ++ List.replicate (4096 - twoRangePayload.length) 0,
          twoRangePayload.length⟩) ∧
      (IntroSet.empty.bDecode letterInet dottedInet4 bt noSrvs (ofBytes twoRangePayload)).map
        Prod.fst = some none := by
  -- the encoding reads only the serializer, which the contract fixes
  have hser : bt.serialize = bencodedStrings.serialize := funext hbt.serialize_eq
  have henc : Service.IntroSet.enc letterInet dottedInet4 bt noSrvs twoRangeIntroSet =
      twoRangePayload := by
    rw [Service.IntroSet.enc_of_serialize_eq letterInet dottedInet4 noSrvs hser]
    decide
  have hput := (Service.IntroSet.puts_bEncode letterInet dottedInet4 bt noSrvs twoRangeIntroSet).ofBytes
    (n := 4096) (by rw [henc]; decide)
  rw [henc] at hput
  refine ⟨hput, ?_⟩
  -- both texts parse to `0.0.0.0/0`, which the set holds once the first is read
  have hranges : twoRangeIntroSet.ownedRanges = [mappedSlash64] ++ [anyIPv4] := by decide
  have htext : ∀ x ∈ [mappedSlash64] ++ [anyIPv4],
      IPRange.TextReads letterInet dottedInet4 bt x (some anyIPv4) := by
    intro x hx
    simp only [List.cons_append, List.nil_append, List.mem_cons, List.not_mem_nil, or_false] at hx
    rcases hx with rfl | rfl <;> exact ⟨lawful_btReads hbt (by decide), by decide⟩
  have hdup : (StdSet.emplace IPRange.lt ([mappedSlash64].map fun _ => anyIPv4) anyIPv4).2 = false := by
    decide
  have hd : (ofBytes twoRangePayload).mem.drop (ofBytes twoRangePayload).cur =
      Service.IntroSet.enc letterInet dottedInet4 bt noSrvs twoRangeIntroSet ++ [] := by
    rw [henc, List.append_nil]
    rfl
  obtain ⟨b', hb'⟩ := Service.IntroSet.bDecode_stops_of_duplicate (f := fun _ => anyIPv4) hranges
    htext (List.pairwise_singleton _ _) hdup (by simp [twoRangeIntroSet, IntroSet.empty]) hd
  simp [hb']

set_option maxRecDepth 8000 in
theorem duplicate_range_text_fails_decode_bencoded :
    bencodedStrings.Lawful ∧
      twoRangeIntroSet.bEncode letterInet dottedInet4 bencodedStrings noSrvs
          (ofBytes (List.replicate 4096 0)) =
        some (true, ⟨twoRangePayload ++ List.replicate (4096 - twoRangePayload.length) 0,
          twoRangePayload.length⟩) ∧
      (IntroSet.empty.bDecode letterInet dottedInet4 bencodedStrings noSrvs
          (ofBytes twoRangePayload)).map Prod.fst = some none :=
  ⟨bencodedStrings_lawful, duplicate_range_text_fails_decode bencodedStrings bencodedStrings_lawful⟩

end DuplicateRanges

end Lokinet.Proofs.Net

/-! ### The descriptor's round trip -/

namespace Lokinet.Proofs.Service.IntroSet

open Lokinet.Util Lokinet.Net Lokinet.Service Lokinet.Proofs.Bencode LlarpBuffer
open Lokinet.Proofs.Net (dottedInet4 anyIPv4 noSrvs bencodedStrings bencodedStrings_lawful lawful_btReads)
open Lokinet.Proofs.Router.RouterContact (letterInet)

variable {inet : Inet6} {inet4 : Inet4} {bt : BtString} {srv : SrvCodec}

/-- A descriptor's encoding round-trips: on a zeroed buffer with room `BEncode` succeeds, and
whenever it succeeds, `BDecode` run from where the writing began reads the descriptor back and
stops where the writing ended. The service carries the protocol's version, no introduction's
latency is negative, each set of the exit policy and the owned ranges is a chain under its
comparator with texts that parse back, and the SRV records go through the serializer and
back. -/
theorem bDecode_after_bEncode {i : IntroSet} (hi : ReadsBack inet inet4 bt srv i) :
    (∀ n, (enc inet inet4 bt srv i).length < n →
      ∃ b', i.bEncode inet inet4 bt srv (ofBytes (List.replicate n 0)) = some (true, b')) ∧
    ∀ b b', i.bEncode inet inet4 bt srv b = some (true, b') →
      IntroSet.empty.bDecode inet inet4 bt srv ⟨b'.mem, b.cur⟩ = some (some i, b') := by
  refine ⟨fun n hn => ⟨_, (puts_bEncode inet inet4 bt srv i).ofBytes hn⟩, fun b b' henc => ?_⟩
  have hw : Wrote b b' (enc inet inet4 bt srv i) := clean_bEncode inet inet4 bt srv i b b' henc
  rw [bDecode_of_drop hi hw.drop_cur]
  obtain ⟨-, hc, -⟩ := hw
  rw [← hc]

/-- A descriptor with one introduction and the range `0.0.0.0/0`. -/
def oneRangeIntroSet : IntroSet :=
  { IntroSet.empty with intros := [Introduction.empty], ownedRanges := [anyIPv4] }

set_option maxRecDepth 8000 in
theorem bDecode_after_bEncode_oneRange :
    ReadsBack letterInet dottedInet4 bencodedStrings noSrvs oneRangeIntroSet ∧
      (∀ n, (enc letterInet dottedInet4 bencodedStrings noSrvs oneRangeIntroSet).length < n →
        ∃ b', oneRangeIntroSet.bEncode letterInet dottedInet4 bencodedStrings noSrvs (ofBytes (List.replicate n 0)) =
          some (true, b')) ∧
      ∀ b b', oneRangeIntroSet.bEncode letterInet dottedInet4 bencodedStrings noSrvs b = some (true, b') →
        IntroSet.empty.bDecode letterInet dottedInet4 bencodedStrings noSrvs ⟨b'.mem, b.cur⟩ =
          some (some oneRangeIntroSet, b') := by
  have hi : ReadsBack letterInet dottedInet4 bencodedStrings noSrvs oneRangeIntroSet := by
    refine ⟨rfl, ?_, ?_, List.pairwise_singleton _ _, ?_, fun h => absurd rfl h⟩
    · intro intro hintro
      simp only [oneRangeIntroSet, List.mem_singleton] at hintro
      subst hintro
      decide
    · simp [oneRangeIntroSet, IntroSet.empty]
    · intro r hr
      simp only [oneRangeIntroSet, List.mem_singleton] at hr
      subst hr
      exact ⟨lawful_btReads bencodedStrings_lawful (by decide), by decide⟩
  exact ⟨hi, bDecode_after_bEncode hi⟩

end Lokinet.Proofs.Service.IntroSet
