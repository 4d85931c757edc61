import Lokinet.Net.IPRange

/-!
`ProtocolInfo` and `TrafficPolicy` (llarp/net/traffic_policy.cpp): the protocols and ranges an
exit carries, two `std::set`s bencoded as lists and rebuilt on decoding by `BEncodeReadSet`.
-/

namespace Lokinet.Net

open Lokinet.Util FaultState

/-- `htons` and `ntohs` on a little-endian host: the two bytes swapped. -/
def htons (x : UInt16) : UInt16 := (x <<< 8) ||| (x >>> 8)

/-- `ProtocolInfo`; `port` is a `nuint16_t`, in network byte order. -/
structure ProtocolInfo where
  protocol : UInt8
  port : Option UInt16
  deriving DecidableEq

namespace ProtocolInfo

/-- `operator<`: the ports, as raw network-order values, count only when both are set. -/
def lt (a b : ProtocolInfo) : Bool :=
  match a.port, b.port with
  | some p, some q => decide (a.protocol < b.protocol) || decide (p < q)
  | _, _ => decide (a.protocol < b.protocol)

/-- `BEncode`: a list of the protocol and, when there is one, the port in host order. -/
def bEncode (p : ProtocolInfo) : BufferM Bool :=
  writeSeq ([bencodeStartList, bencodeWriteUint64 p.protocol.toUInt64] ++
    p.port.toList.map (fun n => bencodeWriteUint64 (htons n).toUInt64) ++ [bencodeEnd])

/-- `BDecode`: a list of integers; the first is the protocol, the second the port in host
order truncated to 16 bits, and any further ones are ignored. -/
def bDecode : BufferM (Option ProtocolInfo) := do
  let vals ← bencodeReadList
    (fun vals => do
      match ← bencodeReadInteger with
      | none => return none
      | some v => return some (vals ++ [v]))
    (fun vals => pure (some vals)) []
  match vals with
  | none | some [] => return none
  | some (v0 :: rest) =>
    if v0 > 255 then return none
    match rest with
    | [] => return some ⟨v0.toUInt8, none⟩
    | v1 :: _ => return if v1 > 65536 then none else some ⟨v0.toUInt8, some (htons v1.toUInt16)⟩

end ProtocolInfo

/-- `TrafficPolicy`; each set is its elements in iteration order. -/
structure TrafficPolicy where
  ranges : List IPRange
  protocols : List ProtocolInfo
  deriving DecidableEq

namespace TrafficPolicy

variable (inet : Inet6) (inet4 : Inet4) (bt : BtString)

def bEncode (t : TrafficPolicy) : BufferM Bool :=
  writeSeq ([bencodeStartDict, bencodeWriteBytestring (ascii "p"), bencodeStartList] ++
    t.protocols.map ProtocolInfo.bEncode ++
    [bencodeEnd, bencodeWriteBytestring (ascii "r"), bencodeStartList] ++
    t.ranges.map (IPRange.bEncode inet inet4 bt) ++ [bencodeEnd, bencodeEnd])

/-- The sink of `BDecode`: `p` and `r` are read into the sets, any other key is skipped. -/
def decodeKey (t : TrafficPolicy) (key : List UInt8) : BufferM (Option TrafficPolicy) := do
  if keyIs key "p" then
    return (← bEncodeReadSet ProtocolInfo.lt ProtocolInfo.bDecode t.protocols).map
      fun protocols => { t with protocols }
  if keyIs key "r" then
    return (← bEncodeReadSet IPRange.lt (IPRange.bDecode inet inet4 bt) t.ranges).map
      fun ranges => { t with ranges }
  return if (← bencodeDiscard) then some t else none

def bDecode (t : TrafficPolicy) : BufferM (Option TrafficPolicy) :=
  bencodeReadDict (decodeKey inet inet4 bt) (fun t => pure (some t)) t

end TrafficPolicy

end Lokinet.Net
