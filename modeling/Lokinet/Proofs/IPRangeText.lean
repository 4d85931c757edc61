import Lokinet.Proofs.IntroSetCodec
import Lokinet.Proofs.IPRangeSets

/-!
What `IPRange::FromString` takes back of the text `ToString` writes. A prefix range reads back
as itself unless it is an IPv4-mapped range with fewer than 96 mask bits: `ToString` prints
such a range as an IPv4 range with the mask bits among the low 32 only, so its text reads back
as `0.0.0.0/0` over the low 32 bits. An IPv4 text with a prefix that is no number makes
`std::stoi` throw.
-/

namespace Lokinet.Proofs.Net

open Lokinet.Util Lokinet.Net
open Lokinet.Proofs.Router.RouterContact (letters letters_ge letters_ne_nul length_letters letterInet)

section Text

variable (inet : Inet6) (inet4 : Inet4)

theorem takeWhile_decimal (k : Nat) : (Decimal.decimal k).takeWhile (· ≠ 0) = Decimal.decimal k := by
  refine List.takeWhile_eq_self_iff.mpr fun c hc => ?_
  have hd := Decimal.isDigit_decimal k c hc
  simp only [Decimal.isDigit, Bool.and_eq_true, decide_eq_true_eq] at hd
  have hne : c ≠ 0 := fun h => by
    rw [h] at hd
    exact absurd hd.1 (by decide)
  simpa using hne

/-- The IPv6 text of an address with a decimal prefix length up to 128 reads back as the
address with that prefix mask. -/
theorem fromString_v6Text (addr : BitVec 128) (hcolon : (58 : UInt8) ∈ IPRange.v6ToString inet addr)
    (hslash : (47 : UInt8) ∉ IPRange.v6ToString inet addr) {k : Nat} (hk : k ≤ 128) :
    IPRange.fromString inet inet4 (IPRange.v6ToString inet addr ++ 47 :: Decimal.decimal k) =
      some (some ⟨addr, netmaskIpv6Bits k⟩) := by
  set s := IPRange.v6ToString inet addr
  have hsplit : IPRange.splitAtSlash (s ++ 47 :: Decimal.decimal k) = (s, Decimal.decimal k) :=
    splitAtSlash_append hslash
  have hcol : (s ++ 47 :: Decimal.decimal k).contains 58 = true := by
    simpa using Or.inl hcolon
  have htake : s.takeWhile (· ≠ 0) = s := List.takeWhile_eq_self_iff.mpr fun c hc => by
    simpa using inet.ntop_ne_nul _ c hc
  have hpton : inet.pton s = some ⟨BigEndian.bytes 16 addr.toNat, BigEndian.length_bytes 16 _⟩ :=
    inet.pton_ntop _
  have hval : BitVec.ofNat 128 (BigEndian.value (BigEndian.bytes 16 addr.toNat)) = addr := by
    have hlt : addr.toNat < 256 ^ 16 := addr.isLt
    rw [BigEndian.value_bytes, Nat.mod_eq_of_lt hlt, BitVec.ofNat_toNat, BitVec.setWidth_eq]
  have hne : (Decimal.decimal k).isEmpty = false :=
    List.isEmpty_eq_false_iff.mpr (Decimal.decimal_ne_nil k)
  have hbits : ¬((k : Int) < 0 ∨ (k : Int) > 128) := by omega
  simp only [IPRange.fromString, hsplit, hcol, htake, Bool.not_true, Bool.false_eq_true, ↓reduceIte, hpton,
    hval, hne, takeWhile_decimal, Decimal.atoi_decimal, hbits, Int.toNat_natCast]

/-- An IPv4 text whose prefix is the letter `x`. -/
def letterPrefix (a : AlignedBuffer 4) : List UInt8 := inet4.ntop a ++ [47, 120]

theorem fromString_letterPrefix (a : AlignedBuffer 4) : IPRange.fromString inet inet4 (letterPrefix inet4 a) = none := by
  have htext := inet4.ntop_text a
  have hsplit : IPRange.splitAtSlash (inet4.ntop a ++ 47 :: [120]) = (inet4.ntop a, [120]) :=
    splitAtSlash_append fun h47 => (htext 47 h47).2.1 rfl
  have hcol : (inet4.ntop a ++ [47, 120]).contains 58 = false := by
    have h58 : (58 : UInt8) ∉ inet4.ntop a ++ [47, 120] := by
      simp only [List.mem_append, List.mem_cons, not_or]
      exact ⟨fun h => (htext 58 h).2.2 rfl, by decide, by decide, fun h => List.not_mem_nil h⟩
    simpa using h58
  have htake : (inet4.ntop a).takeWhile (· ≠ 0) = inet4.ntop a :=
    List.takeWhile_eq_self_iff.mpr fun c hc => by simpa using (htext c hc).1
  have hstoi : Decimal.stoi [120] = none := by decide
  simp only [letterPrefix, IPRange.fromString, hsplit, hcol, htake, Bool.not_false, ↓reduceIte, inet4.pton_ntop,
    List.isEmpty_cons, Bool.false_eq_true, hstoi, Option.map_none]

/-- An IPv4-mapped address is `ExpandV4` of its low 32 bits. -/
theorem expandV4_truncateV6 {r : IPRange} (hv : r.isV4 = true) :
    expandV4 (truncateV6 r.addr) = r.addr := by
  have hmap : r.addr &&& PrefixBlock.mask 128 96 = 0xffff00000000#128 &&& PrefixBlock.mask 128 96 :=
    (PrefixRange.contains_iff_and_mask ⟨⟨0xffff00000000#128, netmaskIpv6Bits 96⟩, 96, by decide, rfl⟩
      r.addr).mp hv
  apply BitVec.eq_of_getLsbD_eq
  intro i hi
  have hbit := congrArg (fun x => x.getLsbD i) hmap
  simp only [BitVec.getLsbD_and, PrefixBlock.getLsbD_mask, hi, decide_true, Bool.true_and] at hbit
  simp only [expandV4, truncateV6, BitVec.getLsbD_or, BitVec.getLsbD_setWidth]
  by_cases hlow : i < 32
  · have hconst : (0xffff00000000#128).getLsbD i = false := by
      rw [show (0xffff00000000#128) = 0xffff#128 <<< 32 by decide, BitVec.getLsbD_shiftLeft]
      simp [hlow]
    rw [hconst, Bool.false_or, decide_eq_true hi, decide_eq_true hlow, Bool.true_and, Bool.true_and]
  · rw [decide_eq_true (show 128 - 96 ≤ i by omega), Bool.and_true, Bool.and_true] at hbit
    simp [hlow, hbit]

theorem toBitVec_truncateV6 (x : BitVec 128) : (truncateV6 x).toBitVec = x.setWidth 32 := rfl

/-- An IPv4 range with a prefix of at least 96 bits counts the prefix bits beyond 96. -/
theorem hostmaskBits_prefixRange (p : PrefixRange) (hv : p.range.isV4 = true) (h96 : 96 ≤ p.bits) :
    p.range.hostmaskBits = p.bits - 96 := by
  have hle := p.bits_le
  rw [hostmaskBits_of_isV4 hv, p.netmaskBits_eq_mask]
  unfold countBits
  rw [List.countP_congr (q := fun i => decide (128 - p.bits ≤ i)) fun i hi => by
    have hi' := List.mem_range.mp hi
    rw [toBitVec_truncateV6, BitVec.getLsbD_setWidth, PrefixBlock.getLsbD_mask, decide_eq_true hi',
      decide_eq_true (show i < 128 by omega), Bool.true_and, Bool.true_and], countP_range_le]
  omega

theorem fromString_toString_prefixRange (htext : ∀ a, (58 : UInt8) ∈ inet.ntop a ∧ (47 : UInt8) ∉ inet.ntop a)
    (p : PrefixRange) (hp : p.range.isV4 = false ∨ 96 ≤ p.bits) :
    IPRange.fromString inet inet4 (IPRange.toString inet inet4 p.range) = some (some p.range) := by
  cases hv : p.range.isV4 with
  | false =>
    have hcount : p.range.hostmaskBits = p.bits := by
      rw [IPRange.hostmaskBits, hv, if_neg Bool.false_ne_true, p.netmaskBits_eq_mask, countBits_mask p.bits_le]
    have hstr : IPRange.toString inet inet4 p.range = IPRange.v6ToString inet p.range.addr ++ 47 ::
        Decimal.decimal p.bits := by
      rw [IPRange.toString, IPRange.baseAddressString, hv, if_neg Bool.false_ne_true, hcount]
    rw [hstr, fromString_v6Text inet inet4 _ (htext _).1 (htext _).2 p.bits_le, ← p.netmask_eq]
  | true =>
    have h96 : 96 ≤ p.bits := hp.resolve_left (by rw [hv]; decide)
    have haddr : expandV4 (truncateV6 p.range.addr) = p.range.addr := expandV4_truncateV6 hv
    rw [toString_of_isV4 inet inet4 hv, fromString_v4Text inet inet4 _ (hostmaskBits_le_of_isV4 hv),
      haddr, hostmaskBits_prefixRange p hv h96,
      show 96 + (p.bits - 96) = p.bits by omega, ← p.netmask_eq]

end Text

set_option maxRecDepth 8000 in
theorem fromString_throws_or_changes_range (inet : Inet6) (inet4 : Inet4)
    (hcolon : (58 : UInt8) ∈ IPRange.v6ToString inet (expandV4 0))
    (hslash : (47 : UInt8) ∉ IPRange.v6ToString inet (expandV4 0)) :
    (∀ a, IPRange.fromString inet inet4 (letterPrefix inet4 a) = none) ∧
      IPRange.fromString inet inet4 (IPRange.v6ToString inet (expandV4 0) ++ 47 :: Decimal.decimal 64) =
        some (some mappedSlash64) ∧
      IPRange.fromString inet inet4 (IPRange.toString inet inet4 mappedSlash64) = some (some anyIPv4) ∧
      anyIPv4 ≠ mappedSlash64 := by
  refine ⟨fromString_letterPrefix inet inet4, fromString_v6Text inet inet4 _ hcolon hslash (by decide), ?_, ?_⟩
  · have hv : mappedSlash64.isV4 = true := by decide
    have hback : (⟨expandV4 (truncateV6 mappedSlash64.addr), netmaskIpv6Bits (96 + mappedSlash64.hostmaskBits)⟩ :
        IPRange) = anyIPv4 := by decide
    rw [toString_of_isV4 inet inet4 hv, fromString_v4Text inet inet4 _ (hostmaskBits_le_of_isV4 hv),
      hback]
  · decide

/-- A text form of IPv6 addresses: a colon, then each byte as two letters. -/
def colonInet : Inet6 where
  ntop a := 58 :: letters a.bytes
  pton
    | 58 :: s => letterInet.pton s
    | _ => none
  ntop_ne_nul a := by
    intro c hc
    rcases List.mem_cons.mp hc with rfl | h
    · decide
    · exact letters_ne_nul a.bytes c h
  length_ntop a := by rw [List.length_cons, length_letters, a.length_eq]; decide
  pton_ntop a := letterInet.pton_ntop a

/-- `::ffff:0.0.0.0` in network order. -/
def mappedZeroBytes : AlignedBuffer 16 :=
  ⟨BigEndian.bytes 16 (expandV4 0).toNat, BigEndian.length_bytes 16 _⟩

set_option maxRecDepth 8000 in
/-- A lawful `inet_ntop`/`inet_pton` pair that writes `::ffff:0.0.0.0` for that address, as the
C library does, and the letters of `letterInet` for the others. -/
def mappedZeroInet : Inet6 where
  ntop a := if a = mappedZeroBytes then ascii "::ffff:0.0.0.0" else letterInet.ntop a
  pton s := if s = ascii "::ffff:0.0.0.0" then some mappedZeroBytes else letterInet.pton s
  ntop_ne_nul a := by
    split
    · decide
    · exact letterInet.ntop_ne_nul a
  length_ntop a := by
    split
    · decide
    · exact letterInet.length_ntop a
  pton_ntop a := by
    by_cases h : a = mappedZeroBytes
    · subst h
      rw [if_pos rfl, if_pos rfl]
    · -- the letters start past the `:` the special text holds
      have hne : letterInet.ntop a ≠ ascii "::ffff:0.0.0.0" := by
        have hcolon : (58 : UInt8) ∈ ascii "::ffff:0.0.0.0" := by decide
        intro he
        rw [← he] at hcolon
        exact absurd (letters_ge a.bytes 58 hcolon) (by decide)
      simp only [h, hne, ↓reduceIte]
      exact letterInet.pton_ntop a

set_option maxRecDepth 8000 in
theorem fromString_throws_or_changes_range_mappedZero :
    (58 : UInt8) ∈ IPRange.v6ToString mappedZeroInet (expandV4 0) ∧
      (47 : UInt8) ∉ IPRange.v6ToString mappedZeroInet (expandV4 0) ∧
      (∀ a, IPRange.fromString mappedZeroInet dottedInet4 (letterPrefix dottedInet4 a) = none) ∧
      IPRange.fromString mappedZeroInet dottedInet4
          (IPRange.v6ToString mappedZeroInet (expandV4 0) ++ 47 :: Decimal.decimal 64) =
        some (some mappedSlash64) ∧
      IPRange.fromString mappedZeroInet dottedInet4 (IPRange.toString mappedZeroInet dottedInet4 mappedSlash64) =
        some (some anyIPv4) ∧ anyIPv4 ≠ mappedSlash64 :=
  ⟨by decide, by decide,
    fromString_throws_or_changes_range mappedZeroInet dottedInet4 (by decide) (by decide)⟩

theorem colonInet_text (a : AlignedBuffer 16) : (58 : UInt8) ∈ colonInet.ntop a ∧ (47 : UInt8) ∉ colonInet.ntop a := by
  refine ⟨List.mem_cons_self, fun h47 => ?_⟩
  rcases List.mem_cons.mp h47 with h | h
  · exact absurd h (by decide)
  · exact absurd (letters_ge a.bytes 47 h) (by decide)

theorem fromString_toString_prefixRange_privateTen :
    (∀ a, (58 : UInt8) ∈ colonInet.ntop a ∧ (47 : UInt8) ∉ colonInet.ntop a) ∧
      (privateTen.range.isV4 = false ∨ 96 ≤ privateTen.bits) ∧
      IPRange.fromString colonInet dottedInet4 (IPRange.toString colonInet dottedInet4 privateTen.range) =
        some (some privateTen.range) :=
  ⟨colonInet_text, Or.inr (by decide),
    fromString_toString_prefixRange colonInet dottedInet4 colonInet_text privateTen (Or.inr (by decide))⟩

end Lokinet.Proofs.Net
