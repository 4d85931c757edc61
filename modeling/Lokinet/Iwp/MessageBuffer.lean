import Lokinet.Lib.Bytes
import Lokinet.Lib.Bitset
import Lokinet.Lib.SortedMap

/-!
The message buffers of llarp/iwp: the plaintext packet layout of `CreatePacket`, and the
`OutboundMessage` and `InboundMessage` that carry one link message through fragments of
`FragmentSize` bytes, acknowledged in a `std::bitset<MAX_LINK_MSG_SIZE / FragmentSize>`.

A packet is its bytes, `PacketOverhead` bytes of MAC and nonce first. The random bytes of
`CreatePacket` (nonce and padding) are zero here and `randint() % variance` is taken as zero,
so a packet is padded with `minpad` bytes; no handler reads either. Times are milliseconds.
-/

namespace Lokinet.Iwp

def fragmentSize : Nat := 1024
def commandOverhead : Nat := 2
/-- `HMACSIZE + TUNNONCESIZE`. -/
def packetOverhead : Nat := 64
def maxLinkMsgSize : Nat := 8192
def deliveryTimeout : Nat := 500
def ackResendInterval : Nat := deliveryTimeout / 2
def txFlushInterval : Nat := deliveryTimeout / 5 * 4
def receivalTimeout : Nat := deliveryTimeout * 8 / 5
def replayWindow : Nat := receivalTimeout * 3 / 2
def llarpProtoVersion : UInt8 := 0
/-- The padding `CreatePacket` adds by default. -/
def defaultPad : Nat := 16

abbrev Packet := List UInt8

inductive Command where
  | ping | xmit | data | acks | nack | mack | clos
  deriving DecidableEq, Repr

def Command.toByte : Command → UInt8
  | .ping => 0
  | .xmit => 1
  | .data => 2
  | .acks => 3
  | .nack => 4
  | .mack => 5
  | .clos => 255

/-- The command a byte names, as the `switch` of `HandlePlaintext` reads it. -/
def Command.ofByte? (b : UInt8) : Option Command :=
  if b = 0 then some .ping else if b = 1 then some .xmit else if b = 2 then some .data
  else if b = 3 then some .acks else if b = 4 then some .nack else if b = 5 then some .mack
  else if b = 255 then some .clos else none

/-- `CreatePacket(cmd, body.size(), pad, 0)` with `body` written after the command. -/
def createPacket (cmd : Command) (body : List UInt8) (pad : Nat) : Packet :=
  List.replicate packetOverhead 0 ++ [llarpProtoVersion, cmd.toByte] ++ body ++ List.replicate pad 0

/-- The big-endian number of `w` bytes at offset `off`. -/
def readBE (pkt : Packet) (off w : Nat) : Nat := BigEndian.value ((pkt.drop off).take w)

/-- A `ShortHash`: 32 bytes. -/
structure ShortHash where
  bytes : List UInt8
  length_eq : bytes.length = 32
  deriving DecidableEq

/-- `ShortHash{pos}`: the 32 bytes at the start of `bs`. -/
def ShortHash.ofBytes (bs : List UInt8) : ShortHash :=
  ⟨(bs ++ List.replicate 32 0).take 32, by simp⟩

inductive DeliveryStatus where
  | success | dropped
  deriving DecidableEq, Repr

/-- The completion handlers the code hands to `SendMessageBuffer`: none, the handler of the
code above the link that sent the message, and the lambda of `GotOutboundLIM`. -/
inductive CompletionHandler where
  | none | sender | ourLIM
  deriving DecidableEq, Repr

/-- `std::bitset<8>`: `MAX_LINK_MSG_SIZE / FragmentSize` acknowledgement bits. -/
abbrev Acks := Bitset (maxLinkMsgSize / fragmentSize)

/-- Whether every fragment in `frags` is acknowledged: `false` at the first that is not,
`none` where `test` throws. -/
def allAcked (acks : Acks) : List Nat → Option Bool
  | [] => some true
  | i :: is => do
    let t ← acks.test i
    if t then allAcked acks is else some false

/-- The fragments `idx / FragmentSize` of a loop `for (idx = 0; idx < sz; idx += FragmentSize)`. -/
def fragments (sz : Nat) : List Nat := List.range ((sz + fragmentSize - 1) / fragmentSize)

structure OutboundMessage where
  data : List UInt8
  msgID : Nat
  acks : Acks
  completed : CompletionHandler
  lastFlush : Nat
  digest : ShortHash
  startedAt : Nat
  deriving DecidableEq

namespace OutboundMessage

/-- The constructor: the digest of the data, and fragment 0 acknowledged. -/
def create (shorthash : List UInt8 → ShortHash) (msgid : Nat) (data : List UInt8) (now : Nat)
    (handler : CompletionHandler) : OutboundMessage :=
  ⟨data, msgid, (Bitset.empty.set 0).getD Bitset.empty, handler, now, shorthash data, now⟩

/-- `XMIT()`: the size truncated to 16 bits, the id, the digest and the first fragment. -/
def xmit (m : OutboundMessage) : Packet :=
  createPacket .xmit (BigEndian.bytes 2 m.data.length ++ BigEndian.bytes 8 m.msgID ++
    m.digest.bytes ++ m.data.take (min m.data.length fragmentSize)) 0

/-- The DATA packet of the fragment at `idx`. -/
def fragment (m : OutboundMessage) (idx : Nat) : Packet :=
  let fragsz := if idx + fragmentSize < m.data.length then fragmentSize else m.data.length - idx
  createPacket .data (BigEndian.bytes 2 idx ++ BigEndian.bytes 8 m.msgID ++
    (m.data.drop idx).take fragsz) 0

def shouldFlush (m : OutboundMessage) (now : Nat) : Bool := now - m.lastFlush ≥ txFlushInterval

/-- `Ack(bitmask)`: `m_Acks = std::bitset<8>(bitmask)`. -/
def ack (m : OutboundMessage) (bitmask : UInt8) : OutboundMessage :=
  { m with acks := Bitset.ofNat _ bitmask.toNat }

/-- The loop of `FlushUnAcked` over a `uint16_t` offset: a DATA packet for each fragment not
acknowledged. `m_Acks[idx / FragmentSize]` past the width is undefined, `none`. The offset
meets a position past the width before it can wrap, so `fuel` never runs out first. -/
def flushFrom (m : OutboundMessage) : Nat → UInt16 → Option (List Packet)
  | 0, _ => none
  | fuel + 1, idx =>
    if idx.toNat < m.data.length then do
      let acked ← m.acks.test (idx.toNat / fragmentSize)
      let rest ← m.flushFrom fuel (idx + 1024)
      if acked then some rest else some (m.fragment idx.toNat :: rest)
    else some []

/-- `FlushUnAcked(sendpkt, now)`: the packets sent and the message with its flush time. -/
def flushUnAcked (m : OutboundMessage) (now : Nat) : Option (List Packet × OutboundMessage) := do
  let pkts ← m.flushFrom (65536 / fragmentSize + 1) 0
  some (pkts, { m with lastFlush := now })

/-- `IsTransmitted()`. The `uint16_t` offset of the loop meets a position past the width,
where `test` throws, before it can wrap. -/
def isTransmitted (m : OutboundMessage) : Option Bool := allAcked m.acks (fragments m.data.length)

def isTimedOut (m : OutboundMessage) (now : Nat) : Bool :=
  now > m.startedAt && now - m.startedAt > deliveryTimeout

end OutboundMessage

structure InboundMessage where
  data : List UInt8
  digset : ShortHash
  msgID : Nat
  lastACKSent : Nat
  lastActiveAt : Nat
  acks : Acks
  deriving DecidableEq

namespace InboundMessage

/-- The constructor: `sz` zero bytes. -/
def create (msgid sz : Nat) (h : ShortHash) (now : Nat) : InboundMessage :=
  ⟨List.replicate sz 0, h, msgid, 0, now, Bitset.empty⟩

/-- `HandleData(idx, buf, now)`: a fragment that does not fit is ignored; otherwise it is
copied in and the bit `idx / FragmentSize` set, where `set` throws past the width. -/
def handleData (m : InboundMessage) (idx : Nat) (buf : List UInt8) (now : Nat) :
    Option InboundMessage :=
  if idx + buf.length > m.data.length then some m
  else do
    let acks ← m.acks.set (idx / fragmentSize)
    some { m with data := Window.paste m.data idx buf, acks, lastActiveAt := now }

def acksBitmask (m : InboundMessage) : UInt8 := UInt8.ofNat m.acks.toNat

/-- `ACKS()`. -/
def ackPacket (m : InboundMessage) : Packet :=
  createPacket .acks (BigEndian.bytes 8 m.msgID ++ [m.acksBitmask]) defaultPad

/-- `IsCompleted()`. -/
def isCompleted (m : InboundMessage) : Option Bool := allAcked m.acks (fragments m.data.length)

def shouldSendACKS (m : InboundMessage) (now : Nat) : Bool := now > m.lastACKSent + ackResendInterval

def isTimedOut (m : InboundMessage) (now : Nat) : Bool :=
  now > m.lastActiveAt && now - m.lastActiveAt > deliveryTimeout

/-- `Verify()`: the digest of the data is the one announced. -/
def verify (m : InboundMessage) (shorthash : List UInt8 → ShortHash) : Bool :=
  shorthash m.data = m.digset

end InboundMessage

end Lokinet.Iwp
