import Lokinet.Handlers.Tun
import Lokinet.Net.Bogon
import Lokinet.Net.IPRangeMap

/-!
How a client's TUN endpoint with exits picks the exit for a packet (`FlushSend`, exit disabled
on this endpoint) and which exit it accepts a reply from (`HandleInboundPacket`, Exit protocol),
llarp/handlers/tun.cpp. Both walk the entries `FindAllEntries` gives for the address; a range
qualifies when it is a bogon range or the address is no bogon. The packet goes to the exit of
the last entry that qualifies; a reply is accepted when the first entry that qualifies is for
the exit it came from.
-/

namespace Lokinet.Handlers

open Lokinet.Util Lokinet.Net

/-- `service::Address::operator<`: the bytes compared as arrays. -/
def addressLt (a b : AlignedBuffer 32) : Bool := decide (a.bytes < b.bytes)

/-- The exit map, keyed by range. -/
abbrev ExitMap := IPRangeMap (AlignedBuffer 32)

/-- The condition of both loops: the range is a bogon range holding the address, or the
address is no bogon. -/
def exitRangeAllows (range : IPRange) (ip : BitVec 128) : Bool :=
  (range.bogonRange && range.contains ip) || !isBogon ip

/-- The loop of `FlushSend` over the entries: each that qualifies overwrites the choice. -/
def selectExit (entries : List (IPRange × AlignedBuffer 32)) (dst : BitVec 128) : AlignedBuffer 32 :=
  entries.foldl (fun addr e =>
    if e.1.bogonRange && e.1.contains dst then e.2
    else if !isBogon dst then e.2
    else addr) (AlignedBuffer.zero 32)

/-- The exit `FlushSend` sends a packet for `dst` to, for an address no remote is mapped to;
`none` when it answers with ICMP unreachable or drops the packet. -/
def exitFor (exitMap : ExitMap) (dst : BitVec 128) : Option (AlignedBuffer 32) :=
  let exitEntries := exitMap.findAllEntries addressLt dst
  if exitEntries.isEmpty then none
  else
    let addr := selectExit exitEntries dst
    if addr == AlignedBuffer.zero 32 then none else some addr

/-- The loop of `HandleInboundPacket` over the entries: the first that qualifies decides. -/
def allowFrom (mapped : List (IPRange × AlignedBuffer 32)) (src : BitVec 128) (fromAddr : AlignedBuffer 32) :
    Bool :=
  match mapped.find? fun e => exitRangeAllows e.1 src with
  | some e => e.2 == fromAddr
  | none => false

/-- Whether `HandleInboundPacket` accepts Exit traffic from the service address `fromAddr`
with source `src`. -/
def acceptsExitTraffic (exitMap : ExitMap) (src : BitVec 128) (fromAddr : AlignedBuffer 32) : Bool :=
  allowFrom (exitMap.findAllEntries addressLt src) src fromAddr

end Lokinet.Handlers
