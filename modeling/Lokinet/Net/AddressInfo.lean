import Lokinet.Util.Aligned

/-!
`AddressInfo` (llarp/net/address_info.cpp): how to reach a router, bencoded as a dict with the
keys `c` (rank), `d` (dialect), `e` (encryption key), `i` (the IPv6 address in text form),
`p` (port) and `v` (protocol version).

The text form of the address comes from the C library: `inet_ntop` and `inet_pton` for
`AF_INET6` are the fields of `Inet6`, which also carries what the code relies on of them.
-/

namespace Lokinet.Net

open Lokinet.Util FaultState

/-- `inet_ntop(AF_INET6, ...)` and `inet_pton(AF_INET6, ...)`: the text of an address has no
NUL, fits in `INET6_ADDRSTRLEN` bytes, and reads back as the address. -/
structure Inet6 where
  ntop : AlignedBuffer 16 → List UInt8
  pton : List UInt8 → Option (AlignedBuffer 16)
  ntop_ne_nul : ∀ a, ∀ c ∈ ntop a, c ≠ 0
  length_ntop : ∀ a, (ntop a).length < 46
  pton_ntop : ∀ a, pton (ntop a) = some a

/-- `LLARP_PROTO_VERSION`. -/
def llarpProtoVersion : UInt64 := 0

/-- `AddressInfo`; its `version` member is never written (the encoder writes
`LLARP_PROTO_VERSION`) and the decoder only checks the value read. -/
structure AddressInfo where
  rank : UInt16
  dialect : List UInt8
  pubkey : AlignedBuffer 32
  ip : AlignedBuffer 16
  port : UInt16
  deriving DecidableEq

namespace AddressInfo

variable (inet : Inet6)

/-- The element `BEncodeReadList` emplaces: value-initialized. -/
def empty : AddressInfo := ⟨0, [], AlignedBuffer.zero 32, AlignedBuffer.zero 16, 0⟩

/-- The 16-bit fields `c` and `p`: an integer in `1..65536`, truncated to `uint16_t`. -/
def decodeUint16 : BufferM (Option UInt16) := do
  match ← bencodeReadInteger with
  | none => return none
  | some i => return if i > 65536 ∨ i ≤ 0 then none else some i.toUInt16

/-- `AddressInfo::DecodeKey`. A dialect is copied into `char tmp[128]` and NUL-terminated at
`tmp[strbuf.sz]`, one past the array for a string of 128 bytes; `std::string(tmp)` stops at the
first NUL. -/
def decodeKey (ai : AddressInfo) (key : List UInt8) : BufferM (Option AddressInfo) := do
  if keyIs key "c" then
    return (← decodeUint16).map fun rank => { ai with rank }
  if keyIs key "d" then
    match ← bencodeReadString with
    | none => return none
    | some s =>
      if s.length > 128 then return none
      if s.length = 128 then failure
      return some { ai with dialect := s.takeWhile (· ≠ 0) }
  if keyIs key "e" then
    return (← AlignedBuffer.bDecode).map fun pubkey => { ai with pubkey }
  if keyIs key "i" then
    match ← bencodeReadString with
    | none => return none
    | some s =>
      if s.length ≥ 128 then return none
      return (inet.pton (s.takeWhile (· ≠ 0))).map fun ip => { ai with ip }
  if keyIs key "p" then
    return (← decodeUint16).map fun port => { ai with port }
  if keyIs key "v" then
    return (← bencodeReadInteger).bind fun i => if i = llarpProtoVersion then some ai else none
  return none

/-- `AddressInfo::BDecode`. -/
def bDecode (ai : AddressInfo) : BufferM (Option AddressInfo) :=
  bencodeDecodeDict (decodeKey inet) ai

/-- `AddressInfo::BEncode`; the 128-byte buffer `inet_ntop` writes to never runs short. -/
def bEncode (ai : AddressInfo) : BufferM Bool :=
  writeSeq [bencodeStartDict,
    bencodeWriteBytestring (ascii "c"), bencodeWriteUint64 ai.rank.toUInt64,
    bencodeWriteBytestring (ascii "d"), bencodeWriteBytestring ai.dialect,
    bencodeWriteBytestring (ascii "e"), bencodeWriteBytestring ai.pubkey.bytes,
    bencodeWriteBytestring (ascii "i"), bencodeWriteBytestring (inet.ntop ai.ip),
    bencodeWriteBytestring (ascii "p"), bencodeWriteUint64 ai.port.toUInt64,
    bencodeWriteUint64Entry (ascii "v") llarpProtoVersion,
    bencodeEnd]

end AddressInfo

end Lokinet.Net
