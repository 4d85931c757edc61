import Lokinet.Net.IPRange

/-!
The bogon tables and checks of llarp/net/net.cpp, in the build without `TESTNET`, and
`IPRange::BogonRange` (llarp/net/ip_range.hpp). `IsBogon(huint128_t)` looks at the address's
network-order bytes: an IPv4-mapped address is checked against the IPv4 table, any other against
the IPv6 one.
-/

namespace Lokinet.Net

open Lokinet.Util

/-- `bogonRanges_v6`. -/
def bogonRangesV6 : List IPRange :=
  [⟨0, netmaskIpv6Bits 128⟩, ⟨1, netmaskIpv6Bits 128⟩,
    ⟨0x02000000000000000000000000000000#128, netmaskIpv6Bits 7⟩,
    ⟨0xff000000000000000000000000000000#128, netmaskIpv6Bits 8⟩,
    ⟨0xfc000000000000000000000000000000#128, netmaskIpv6Bits 8⟩,
    ⟨0xf8000000000000000000000000000000#128, netmaskIpv6Bits 8⟩]

/-- `bogonRanges_v4`. -/
def bogonRangesV4 : List IPRange :=
  [IPRange.fromIPv4 0 0 0 0 8, IPRange.fromIPv4 10 0 0 0 8, IPRange.fromIPv4 100 64 0 0 10,
    IPRange.fromIPv4 127 0 0 0 8, IPRange.fromIPv4 169 254 0 0 16, IPRange.fromIPv4 172 16 0 0 12,
    IPRange.fromIPv4 192 0 0 0 24, IPRange.fromIPv4 192 0 2 0 24, IPRange.fromIPv4 192 88 99 0 24,
    IPRange.fromIPv4 192 168 0 0 16, IPRange.fromIPv4 198 18 0 0 15, IPRange.fromIPv4 198 51 100 0 24,
    IPRange.fromIPv4 203 0 113 0 24, IPRange.fromIPv4 224 0 0 0 4, IPRange.fromIPv4 240 0 0 0 4]

/-- `ipv4_map_prefix`: the first twelve bytes of `::ffff:0:0/96`. -/
def ipv4MapPrefix : List UInt8 := [0, 0, 0, 0, 0, 0, 0, 0, 0, 0, 0xff, 0xff]

/-- `ipv6_is_mapped_ipv4`. -/
def ipv6IsMappedIpv4 (addr : List UInt8) : Bool := addr.take 12 == ipv4MapPrefix

/-- `IsIPv4Bogon`. -/
def isIPv4Bogon (addr : UInt32) : Bool := bogonRangesV4.any fun bogon => bogon.containsV4 addr

/-- `IsBogon(const in6_addr&)`, on the sixteen bytes of the address. -/
def isBogonIn6 (addr : List UInt8) : Bool :=
  if !ipv6IsMappedIpv4 addr then
    bogonRangesV6.any fun range => range.contains (BitVec.ofNat 128 (BigEndian.value addr))
  else isIPv4Bogon (ipaddrIpv4Bits (addr.getD 12 0) (addr.getD 13 0) (addr.getD 14 0) (addr.getD 15 0))

/-- `IsBogon(huint128_t)`: the check on `ntoh128` of the address. -/
def isBogon (ip : BitVec 128) : Bool := isBogonIn6 (BigEndian.bytes 16 ip.toNat)

/-- `IPRange::BogonRange`: `0.0.0.0/0` and `::/0` are not, and otherwise the range is when its
address or its highest address is a bogon. -/
def IPRange.bogonRange (r : IPRange) : Bool :=
  if r.isV4 && r.netmaskBits == netmaskIpv6Bits 96 then false
  else if r.netmaskBits == 0 then false
  else isBogon r.addr || isBogon r.highestAddr

end Lokinet.Net
