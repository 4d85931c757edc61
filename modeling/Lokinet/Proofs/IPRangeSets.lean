import Lokinet.Lib.PrefixBlock
import Lokinet.Net.Bogon

/-!
The sets of addresses `IPRange`s stand for. `netmask_ipv6_bits(n)` is the mask of the `n`
highest bits, so a range built with it holds the block of addresses that agree with its
address there: the interval from the masked address to `HighestAddr()`. Two such blocks that
meet are nested, which makes `operator*` exact. `Contains(const IPRange&)` tests the other
range's address and highest address, which are the ends of its block only when its address is
the block's base: a range holding a wider one's unmasked address and last address passes.

`BogonRange()` looks at the same two addresses, so it only finds bogons at the ends of a range.
-/

namespace Lokinet.Proofs.Net

open Lokinet.Net PrefixBlock

section Netmask

theorem getLsbD_netmaskBitsFrom (i : Nat) : ∀ (k numset : Nat),
    (netmaskBitsFrom k numset).getLsbD i = (decide (i < 128) && decide (numset ≤ i) && decide (i < numset + k))
  | 0, numset => by
    rw [netmaskBitsFrom, Bool.eq_iff_iff]
    simp
  | k + 1, numset => by
    rw [netmaskBitsFrom, BitVec.getLsbD_or, getLsbD_netmaskBitsFrom i k (numset + 1), BitVec.getLsbD_shiftLeft,
      BitVec.getLsbD_one, Bool.eq_iff_iff]
    simp only [Bool.or_eq_true, Bool.and_eq_true, Bool.not_eq_true', decide_eq_true_eq, decide_eq_false_iff_not]
    omega

theorem netmaskIpv6Bits_eq_mask {n : Nat} (hn : n ≤ 128) : netmaskIpv6Bits n = mask 128 n := by
  apply BitVec.eq_of_getLsbD_eq
  intro i hi
  rw [netmaskIpv6Bits, getLsbD_netmaskBitsFrom, getLsbD_mask]
  simp [hi, show i < 128 - n + n by omega]

theorem countP_range_le (k : Nat) : ∀ m, (List.range m).countP (fun i => decide (k ≤ i)) = m - k
  | 0 => by simp
  | m + 1 => by
    rw [List.range_succ, List.countP_append, countP_range_le k m, List.countP_singleton]
    by_cases h : k ≤ m <;> simp [h] <;> omega

theorem countBits_mask {n : Nat} (hn : n ≤ 128) : countBits (mask 128 n) = n := by
  unfold countBits
  rw [List.countP_congr (q := fun i => decide (128 - n ≤ i)) fun i hi => by
    rw [getLsbD_mask, decide_eq_true (List.mem_range.mp hi), Bool.true_and], countP_range_le]
  omega

end Netmask

/-- A range whose netmask is `netmask_ipv6_bits(bits)`: the ranges lokinet builds from a prefix
length. -/
structure PrefixRange where
  range : IPRange
  bits : Nat
  bits_le : bits ≤ 128
  netmask_eq : range.netmaskBits = netmaskIpv6Bits bits

namespace PrefixRange

variable (p q : PrefixRange)

theorem netmaskBits_eq_mask : p.range.netmaskBits = mask 128 p.bits := by
  rw [p.netmask_eq, netmaskIpv6Bits_eq_mask p.bits_le]

/-- The block's first address. -/
def base : BitVec 128 := p.range.addr &&& p.range.netmaskBits

theorem contains_iff_and_mask (ip : BitVec 128) :
    p.range.contains ip = true ↔ ip &&& mask 128 p.bits = p.range.addr &&& mask 128 p.bits := by
  rw [IPRange.contains, beq_iff_eq, p.netmaskBits_eq_mask, eq_comm]

/-- An address is in the range exactly when it agrees with the range's address on the `bits`
highest bits. -/
theorem contains_iff_agree (ip : BitVec 128) :
    p.range.contains ip = true ↔ ip >>> (128 - p.bits) = p.range.addr >>> (128 - p.bits) := by
  rw [contains_iff_and_mask, and_mask_eq_iff, ← BitVec.toNat_inj, BitVec.toNat_ushiftRight,
    BitVec.toNat_ushiftRight, Nat.shiftRight_eq_div_pow, Nat.shiftRight_eq_div_pow]

theorem toNat_highestAddr : p.range.highestAddr.toNat = p.base.toNat + 2 ^ (128 - p.bits) - 1 := by
  have hcount : countBits p.range.netmaskBits = p.bits := by
    rw [p.netmaskBits_eq_mask, countBits_mask p.bits_le]
  rw [IPRange.highestAddr, hcount, base, p.netmaskBits_eq_mask, toNat_last _ p.bits_le]

/-- The range is the interval from its base to its highest address. -/
theorem contains_iff_mem (ip : BitVec 128) :
    p.range.contains ip = true ↔ p.base.toNat ≤ ip.toNat ∧ ip.toNat ≤ p.range.highestAddr.toNat := by
  rw [contains_iff_and_mask, and_mask_eq_iff_mem, toNat_highestAddr, base, p.netmaskBits_eq_mask]

theorem contains_addr : p.range.contains p.range.addr = true := by
  rw [contains_iff_and_mask]

theorem base_le_highestAddr : p.base.toNat ≤ p.range.highestAddr.toNat := by
  have hpos := Nat.two_pow_pos (128 - p.bits)
  rw [toNat_highestAddr]
  omega

theorem contains_base : p.range.contains p.base = true :=
  (p.contains_iff_mem _).mpr ⟨Nat.le_refl _, p.base_le_highestAddr⟩

theorem contains_highestAddr : p.range.contains p.range.highestAddr = true :=
  (p.contains_iff_mem _).mpr ⟨p.base_le_highestAddr, Nat.le_refl _⟩

/-- A range that holds every address of another passes `Contains(const IPRange&)` for it. -/
theorem containsRange_of_subset (h : ∀ ip, q.range.contains ip = true → p.range.contains ip = true) :
    p.range.containsRange q.range = true := by
  rw [IPRange.containsRange, Bool.and_eq_true]
  exact ⟨h _ q.contains_addr, h _ q.contains_highestAddr⟩

/-- For a range whose address is its base, `Contains(const IPRange&)` means set inclusion. -/
theorem subset_of_containsRange (haddr : q.base = q.range.addr) (h : p.range.containsRange q.range = true) :
    ∀ ip, q.range.contains ip = true → p.range.contains ip = true := by
  rw [IPRange.containsRange, Bool.and_eq_true] at h
  obtain ⟨hlo, hhi⟩ := h
  have hlo' := ((p.contains_iff_mem _).mp hlo).1
  have hhi' := ((p.contains_iff_mem _).mp hhi).2
  intro ip hip
  obtain ⟨hqlo, hqhi⟩ := (q.contains_iff_mem ip).mp hip
  rw [haddr] at hqlo
  exact (p.contains_iff_mem ip).mpr ⟨by omega, by omega⟩

/-- Of two ranges that share an address, the one with fewer network bits holds the other. -/
theorem subset_of_common {ip : BitVec 128} (hp : p.range.contains ip = true) (hq : q.range.contains ip = true)
    (hle : p.bits ≤ q.bits) : ∀ ip', q.range.contains ip' = true → p.range.contains ip' = true := by
  intro ip' hip'
  rw [contains_iff_and_mask] at hp hq hip' ⊢
  rw [← hp]
  exact and_mask_eq_of_le hle (hip'.trans hq.symm)

theorem intersects_iff_common :
    p.range.intersects q.range = true ↔ ∃ ip, p.range.contains ip = true ∧ q.range.contains ip = true := by
  rw [IPRange.intersects, Bool.or_eq_true]
  constructor
  · rintro (h | h)
    · rw [IPRange.containsRange, Bool.and_eq_true] at h
      exact ⟨q.range.addr, h.1, q.contains_addr⟩
    · rw [IPRange.containsRange, Bool.and_eq_true] at h
      exact ⟨p.range.addr, p.contains_addr, h.1⟩
  · rintro ⟨ip, hp, hq⟩
    rcases Nat.le_total p.bits q.bits with hle | hle
    · exact .inl (p.containsRange_of_subset q (p.subset_of_common q hp hq hle))
    · exact .inr (q.containsRange_of_subset p (q.subset_of_common p hq hp hle))

end PrefixRange

section Containment

/-- What a prefix range holds: the addresses agreeing with it on its network bits, an interval
from its base to its highest address. A range holding all of another passes
`Contains(const IPRange&)`, and for a range whose address is its base the converse holds;
`operator*` holds exactly when the ranges share an address. -/
theorem prefixRange_set_arithmetic (p q : PrefixRange) (ip : BitVec 128) :
    (p.range.contains ip = true ↔ ip >>> (128 - p.bits) = p.range.addr >>> (128 - p.bits)) ∧
    p.range.contains p.base = true ∧ p.range.contains p.range.highestAddr = true ∧
    (p.range.contains ip = true → p.base ≤ ip ∧ ip ≤ p.range.highestAddr) ∧
    ((∀ y, q.range.contains y = true → p.range.contains y = true) → p.range.containsRange q.range = true) ∧
    (q.base = q.range.addr →
      (p.range.containsRange q.range = true ↔ ∀ y, q.range.contains y = true → p.range.contains y = true)) ∧
    (p.range.intersects q.range = true ↔ ∃ y, p.range.contains y = true ∧ q.range.contains y = true) := by
  refine ⟨p.contains_iff_agree ip, p.contains_base, p.contains_highestAddr, fun h => ?_,
    p.containsRange_of_subset q, fun haddr => ⟨p.subset_of_containsRange q haddr, p.containsRange_of_subset q⟩,
    p.intersects_iff_common q⟩
  obtain ⟨hlo, hhi⟩ := (p.contains_iff_mem ip).mp h
  exact ⟨BitVec.le_def.mpr hlo, BitVec.le_def.mpr hhi⟩

/-- `255.255.255.255/32`, and `255.255.255.255/0`: the whole IPv4 space written with its last
address. -/
def lastIPv4Host : IPRange := ⟨expandV4 0xffffffff, netmaskIpv6Bits 128⟩

def anyIPv4FromLast : IPRange := ⟨expandV4 0xffffffff, netmaskIpv6Bits 96⟩

set_option maxRecDepth 8000 in
theorem containsRange_passes_wider_range :
    lastIPv4Host.containsRange anyIPv4FromLast = true ∧
      anyIPv4FromLast.contains (expandV4 0x01020304) = true ∧ lastIPv4Host.contains (expandV4 0x01020304) = false := by
  refine ⟨?_, ?_, ?_⟩ <;> decide

end Containment

section Bogons

/-- A range `BogonRange()` flags holds a bogon: its address or its highest address. -/
theorem bogonRange_holds_bogon (p : PrefixRange) (h : p.range.bogonRange = true) :
    ∃ ip, p.range.contains ip = true ∧ isBogon ip = true := by
  unfold IPRange.bogonRange at h
  split_ifs at h
  rcases Bool.or_eq_true_iff.mp h with ha | hh
  · exact ⟨p.range.addr, p.contains_addr, ha⟩
  · exact ⟨p.range.highestAddr, p.contains_highestAddr, hh⟩

/-- `10.0.0.0/8`. -/
def privateTen : PrefixRange := ⟨IPRange.fromIPv4 10 0 0 0 8, 104, by decide, rfl⟩

/-- `8.0.0.0/6`: `8.0.0.0` to `11.255.255.255`, around the bogon block `10.0.0.0/8`. -/
def aroundPrivateTen : IPRange := ⟨expandV4 0x08000000, netmaskIpv6Bits 102⟩

set_option maxRecDepth 8000 in
theorem bogonRange_misses_inner_bogon :
    aroundPrivateTen.netmaskBits ≠ netmaskIpv6Bits 96 ∧ aroundPrivateTen.netmaskBits ≠ 0 ∧
      aroundPrivateTen.bogonRange = false ∧ aroundPrivateTen.contains (expandV4 0x0a000001) = true ∧
      isBogon (expandV4 0x0a000001) = true := by
  refine ⟨?_, ?_, ?_, ?_, ?_⟩ <;> decide

end Bogons

end Lokinet.Proofs.Net
