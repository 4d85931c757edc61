import Lokinet.Net.AddressInfo

/-!
`IPRange` (llarp/net/ip_range.hpp, ip_range.cpp): a 128-bit address and a 128-bit netmask, with
IPv4 ranges kept inside `::ffff:0.0.0.0/96`. On the wire a range is the bencoded text of
`ToString()`, and `FromString` reads it back.

`huint128_t` is a `BitVec 128`; its text goes through `inet_ntop`/`inet_pton` for `AF_INET6`
(`Inet6`) on the big-endian bytes, and `huint32_t`'s through the `AF_INET` pair (`Inet4`).
oxenmq's `bt_serialize`/`bt_deserialize`, outside the source, are a parameter (`BtString`).
-/

namespace Lokinet.Net

open Lokinet.Util FaultState

/-- `inet_ntop(AF_INET, ...)` and `inet_pton(AF_INET, ...)`: the dotted-quad text has no NUL,
`/` or `:`, and reads back as the address. -/
structure Inet4 where
  ntop : AlignedBuffer 4 → List UInt8
  pton : List UInt8 → Option (AlignedBuffer 4)
  ntop_text : ∀ a, ∀ c ∈ ntop a, c ≠ 0 ∧ c ≠ 47 ∧ c ≠ 58
  pton_ntop : ∀ a, pton (ntop a) = some a

/-- oxenmq's `bt_serialize` and `bt_deserialize` on a `std::string`; `none` is the exception
`bt_deserialize` throws. -/
structure BtString where
  serialize : List UInt8 → List UInt8
  deserialize : List UInt8 → Option (List UInt8)

/-- oxenmq's contract on strings: `bt_serialize` writes `<length>:<bytes>`, and `bt_deserialize`
reads that back. -/
structure BtString.Lawful (bt : BtString) : Prop where
  serialize_eq : ∀ s, bt.serialize s = Decimal.decimal s.length ++ 58 :: s
  deserialize_serialize : ∀ s, s.length < 10 ^ 9 → bt.deserialize (bt.serialize s) = some s

/-- `_netmask_ipv6_bits(numset)`: the bits from `numset` up to 127. The recursion stops when
`128 - numset` reaches zero; `k` is that count. -/
def netmaskBitsFrom : Nat → Nat → BitVec 128
  | 0, _ => 0
  | k + 1, numset => (1#128 <<< numset) ||| netmaskBitsFrom k (numset + 1)

/-- `netmask_ipv6_bits(numset)`: the `numset` highest bits, for `numset ≤ 128`. -/
def netmaskIpv6Bits (numset : Nat) : BitVec 128 := netmaskBitsFrom numset (128 - numset)

/-- `ipaddr_ipv4_bits(a, b, c, d)`: the address `a.b.c.d`. -/
def ipaddrIpv4Bits (a b c d : UInt8) : UInt32 :=
  d.toUInt32 ||| c.toUInt32 <<< 8 ||| b.toUInt32 <<< 16 ||| a.toUInt32 <<< 24

/-- `net::ExpandV4`. -/
def expandV4 (x : UInt32) : BitVec 128 := 0xffff00000000#128 ||| x.toBitVec.setWidth 128

/-- `net::TruncateV6`: the low 32 bits. -/
def truncateV6 (x : BitVec 128) : UInt32 := ⟨x.setWidth 32⟩

/-- `bits::count_bits`: the number of set bits. -/
def countBits {w : Nat} (x : BitVec w) : Nat := (List.range w).countP fun i => x.getLsbD i

structure IPRange where
  addr : BitVec 128
  netmaskBits : BitVec 128
  deriving DecidableEq

namespace IPRange

/-- `Contains(const huint128_t&)`. -/
def contains (r : IPRange) (ip : BitVec 128) : Bool := r.addr &&& r.netmaskBits == ip &&& r.netmaskBits

/-- `IsV4`: the address lies in `::ffff:0.0.0.0/96`. -/
def isV4 (r : IPRange) : Bool := (IPRange.mk 0xffff00000000#128 (netmaskIpv6Bits 96)).contains r.addr

/-- `HostmaskBits`: for an IPv4 range only the low 32 bits of the mask are counted. -/
def hostmaskBits (r : IPRange) : Nat :=
  if r.isV4 then countBits (truncateV6 r.netmaskBits).toBitVec else countBits r.netmaskBits

/-- `HighestAddr`: the masked address plus the size of the host part, less one. -/
def highestAddr (r : IPRange) : BitVec 128 :=
  (r.addr &&& r.netmaskBits) + (1#128 <<< (128 - countBits r.netmaskBits)) - 1#128

/-- `Contains(const IPRange&)`: the other range's address and its highest address. -/
def containsRange (r other : IPRange) : Bool := r.contains other.addr && r.contains other.highestAddr

/-- `operator*`: one of the ranges contains the other. -/
def intersects (r other : IPRange) : Bool := r.containsRange other || other.containsRange r

/-- `Contains(const huint32_t&)`: an IPv4 range holding the mapped address. -/
def containsV4 (r : IPRange) (ip : UInt32) : Bool := r.isV4 && r.contains (expandV4 ip)

/-- `FromIPv4(a, b, c, d, mask)`. -/
def fromIPv4 (a b c d mask : UInt8) : IPRange := ⟨expandV4 (ipaddrIpv4Bits a b c d), netmaskIpv6Bits (mask.toNat + 96)⟩

/-- `operator<`, the comparator of `std::set<IPRange>`. -/
def lt (a b : IPRange) : Bool :=
  (a.addr &&& a.netmaskBits).ult (b.addr &&& b.netmaskBits) || a.netmaskBits.ult b.netmaskBits

variable (inet : Inet6) (inet4 : Inet4)

/-- `huint32_t::ToString`: `inet_ntop` of `htonl(h)`. -/
def v4ToString (h : UInt32) : List UInt8 := inet4.ntop ⟨BigEndian.bytes 4 h.toNat, BigEndian.length_bytes 4 _⟩

/-- `huint128_t::ToString`: `inet_ntop` of `ntoh128(h)`. -/
def v6ToString (h : BitVec 128) : List UInt8 :=
  inet.ntop ⟨BigEndian.bytes 16 h.toNat, BigEndian.length_bytes 16 _⟩

def baseAddressString (r : IPRange) : List UInt8 :=
  if r.isV4 then v4ToString inet4 (truncateV6 r.addr) else v6ToString inet r.addr

/-- `ToString`: the base address, `/`, and `std::to_string(HostmaskBits())`. -/
def toString (r : IPRange) : List UInt8 := baseAddressString inet inet4 r ++ 47 :: Decimal.decimal r.hostmaskBits

/-- `str.substr(0, slashpos)` and `str.substr(slashpos + 1)` at the first `/`, or the whole
text and `""` when there is none. -/
def splitAtSlash (str : List UInt8) : List UInt8 × List UInt8 :=
  match str.idxOf? 47 with
  | some i => (str.take i, str.drop (i + 1))
  | none => (str, [])

/-- `FromString`. The outer `none` is `std::stoi` throwing; `some none` is `false`. Whether the
text is IPv6 is decided by a `:` anywhere in it, also after the `/`. -/
def fromString (str : List UInt8) : Option (Option IPRange) :=
  let (base, bitsstr) := splitAtSlash str
  if !str.contains 58 then
    match inet4.pton (base.takeWhile (· ≠ 0)) with
    | none => some none
    | some n =>
      let addr := expandV4 (UInt32.ofNat (BigEndian.value n.bytes))
      if bitsstr.isEmpty then some (some ⟨addr, netmaskIpv6Bits 128⟩)
      else (Decimal.stoi bitsstr).map fun bits =>
        if bits < 0 ∨ bits > 32 then none else some ⟨addr, netmaskIpv6Bits (96 + bits.toNat)⟩
  else
    match inet.pton (base.takeWhile (· ≠ 0)) with
    | none => some none
    | some i =>
      let addr := BitVec.ofNat 128 (BigEndian.value i.bytes)
      if bitsstr.isEmpty then some (some ⟨addr, netmaskIpv6Bits 128⟩)
      else
        let bits := Decimal.atoi (bitsstr.takeWhile (· ≠ 0))
        if bits < 0 ∨ bits > 128 then some none else some (some ⟨addr, netmaskIpv6Bits bits.toNat⟩)

variable (bt : BtString)

/-- `BEncode`: `bt_serialize(ToString())` written as it is. -/
def bEncode (r : IPRange) : BufferM Bool := write (bt.serialize (toString inet inet4 r))

/-- `BDecode`: the value is skipped by `bencode_discard`, its bytes deserialized as a string
(anything else is caught and gives `false`) and parsed by `FromString`, whose exception is not
caught. -/
def bDecode : BufferM (Option IPRange) := do
  let b ← get
  if !(← bencodeDiscard) then return none
  let b' ← get
  match bt.deserialize ((b.mem.drop b.cur).take (b'.cur - b.cur)) with
  | none => return none
  | some str =>
    match fromString inet inet4 str with
    | none => failure
    | some r => return r

end IPRange

end Lokinet.Net
