import Lokinet.Net.AddressInfo

/-!
The routing-layer message parser (llarp/routing/message_parser.cpp) and the messages it decodes in
place. `DataDiscardMessage`, `PathLatencyMessage`, `PathConfirmMessage` (llarp/routing,
llarp/messages/discard.hpp) and the exit messages `GrantExitMessage`, `UpdateExitMessage` and
`CloseExitMessage` (llarp/exit/exit_messages.*) have all their members; of the other six only the
`IMessage` members are modelled, and their `DecodeKey` and `Clear` are a parameter.
-/

namespace Lokinet.Routing

open Lokinet.Util FaultState LlarpBuffer

/-- `PathID_t`. -/
abbrev PathID := AlignedBuffer 16

/-- The members of `IMessage`; `from_` is `from`. -/
structure IMessage where
  from_ : PathID
  S : UInt64
  version : UInt64
  deriving DecidableEq

/-- A default-constructed `IMessage`: `S{0}`, `version = LLARP_PROTO_VERSION`. -/
def IMessage.create : IMessage := ⟨AlignedBuffer.zero 16, 0, Net.llarpProtoVersion⟩

/-- `BEncodeMaybeReadDictInt(k, i, read, key, buf)`: at the key `k`, the integer read and
`read` set; `none` when the integer does not read. -/
def bEncodeMaybeReadDictInt (k : String) (i : UInt64) (read : Bool) (key : List UInt8) :
    BufferM (Option (UInt64 × Bool)) := do
  if keyIs key k then
    match ← bencodeReadInteger with
    | none => return none
    | some v => return some (v, true)
  else return some (i, read)

/-- `BEncodeMaybeReadDictEntry(k, item, read, key, buf)` for an `AlignedBuffer` item. -/
def bEncodeMaybeReadDictEntry {sz : Nat} (k : String) (item : AlignedBuffer sz) (read : Bool)
    (key : List UInt8) : BufferM (Option (AlignedBuffer sz × Bool)) := do
  if keyIs key k then
    match ← AlignedBuffer.bDecode with
    | none => return none
    | some v => return some (v, true)
  else return some (item, read)

/-- `routing::DataDiscardMessage`. -/
structure DataDiscardMessage extends IMessage where
  P : PathID
  deriving DecidableEq

namespace DataDiscardMessage

def create : DataDiscardMessage := { IMessage.create with P := AlignedBuffer.zero 16 }

def decodeKey (m : DataDiscardMessage) (key : List UInt8) : BufferM (DataDiscardMessage × Bool) := do
  let some (P, read) ← bEncodeMaybeReadDictEntry "P" m.P false key | return (m, false)
  let m := { m with P }
  let some (S, read) ← bEncodeMaybeReadDictInt "S" m.S read key | return (m, false)
  let m := { m with S }
  let some (version, read) ← bEncodeMaybeReadDictInt "V" m.version read key | return (m, false)
  return ({ m with version }, read)

def clear (m : DataDiscardMessage) : DataDiscardMessage := { m with version := 0 }

end DataDiscardMessage

/-- `routing::PathLatencyMessage`. -/
structure PathLatencyMessage extends IMessage where
  T : UInt64
  L : UInt64
  deriving DecidableEq

namespace PathLatencyMessage

def create : PathLatencyMessage := { IMessage.create with T := 0, L := 0 }

def decodeKey (m : PathLatencyMessage) (key : List UInt8) : BufferM (PathLatencyMessage × Bool) := do
  let some (L, read) ← bEncodeMaybeReadDictInt "L" m.L false key | return (m, false)
  let m := { m with L }
  let some (S, read) ← bEncodeMaybeReadDictInt "S" m.S read key | return (m, false)
  let m := { m with S }
  let some (T, read) ← bEncodeMaybeReadDictInt "T" m.T read key | return (m, false)
  return ({ m with T }, read)

def clear (m : PathLatencyMessage) : PathLatencyMessage := { m with T := 0, L := 0, version := 0 }

end PathLatencyMessage

/-- `routing::PathConfirmMessage`. The two times are `llarp_time_t` milliseconds; the integer
read is cast to them, and they are kept here as the 64 bits of that cast. -/
structure PathConfirmMessage extends IMessage where
  pathLifetime : UInt64
  pathCreated : UInt64
  deriving DecidableEq

namespace PathConfirmMessage

def create : PathConfirmMessage := { IMessage.create with pathLifetime := 0, pathCreated := 0 }

def decodeKey (m : PathConfirmMessage) (key : List UInt8) : BufferM (PathConfirmMessage × Bool) := do
  let some (pathLifetime, read) ← bEncodeMaybeReadDictInt "L" m.pathLifetime false key
    | return (m, false)
  let m := { m with pathLifetime }
  let some (S, read) ← bEncodeMaybeReadDictInt "S" m.S read key | return (m, false)
  let m := { m with S }
  let some (pathCreated, read) ← bEncodeMaybeReadDictInt "T" m.pathCreated read key
    | return (m, false)
  let m := { m with pathCreated }
  let some (version, read) ← bEncodeMaybeReadDictInt "V" m.version read key | return (m, false)
  return ({ m with version }, read)

def clear (m : PathConfirmMessage) : PathConfirmMessage :=
  { m with pathLifetime := 0, pathCreated := 0, version := 0 }

end PathConfirmMessage

/-- `routing::GrantExitMessage`; `Y` is its 16-byte nonce and `Z` its signature. -/
structure GrantExitMessage extends IMessage where
  T : UInt64
  Y : AlignedBuffer 16
  Z : AlignedBuffer 64
  deriving DecidableEq

namespace GrantExitMessage

def create : GrantExitMessage :=
  { IMessage.create with T := 0, Y := AlignedBuffer.zero 16, Z := AlignedBuffer.zero 64 }

def decodeKey (m : GrantExitMessage) (key : List UInt8) : BufferM (GrantExitMessage × Bool) := do
  let some (S, read) ← bEncodeMaybeReadDictInt "S" m.S false key | return (m, false)
  let m := { m with S }
  let some (T, read) ← bEncodeMaybeReadDictInt "T" m.T read key | return (m, false)
  let m := { m with T }
  let some (version, read) ← bEncodeMaybeReadDictInt "V" m.version read key | return (m, false)
  let m := { m with version }
  let some (Y, read) ← bEncodeMaybeReadDictEntry "Y" m.Y read key | return (m, false)
  let m := { m with Y }
  let some (Z, read) ← bEncodeMaybeReadDictEntry "Z" m.Z read key | return (m, false)
  return ({ m with Z }, read)

def clear (m : GrantExitMessage) : GrantExitMessage :=
  { m with T := 0, Y := AlignedBuffer.zero 16, Z := AlignedBuffer.zero 64 }

end GrantExitMessage

/-- `routing::UpdateExitMessage`. Its `DecodeKey` reads no `Y`. -/
structure UpdateExitMessage extends IMessage where
  P : PathID
  T : UInt64
  Y : AlignedBuffer 16
  Z : AlignedBuffer 64
  deriving DecidableEq

namespace UpdateExitMessage

def create : UpdateExitMessage :=
  { IMessage.create with
    P := AlignedBuffer.zero 16, T := 0, Y := AlignedBuffer.zero 16, Z := AlignedBuffer.zero 64 }

def decodeKey (m : UpdateExitMessage) (key : List UInt8) : BufferM (UpdateExitMessage × Bool) := do
  let some (S, read) ← bEncodeMaybeReadDictInt "S" m.S false key | return (m, false)
  let m := { m with S }
  let some (T, read) ← bEncodeMaybeReadDictInt "T" m.T read key | return (m, false)
  let m := { m with T }
  let some (version, read) ← bEncodeMaybeReadDictInt "V" m.version read key | return (m, false)
  let m := { m with version }
  let some (P, read) ← bEncodeMaybeReadDictEntry "P" m.P read key | return (m, false)
  let m := { m with P }
  let some (Z, read) ← bEncodeMaybeReadDictEntry "Z" m.Z read key | return (m, false)
  return ({ m with Z }, read)

def clear (m : UpdateExitMessage) : UpdateExitMessage :=
  { m with P := AlignedBuffer.zero 16, T := 0, Y := AlignedBuffer.zero 16, Z := AlignedBuffer.zero 64 }

end UpdateExitMessage

/-- `routing::CloseExitMessage`. -/
structure CloseExitMessage extends IMessage where
  Y : AlignedBuffer 16
  Z : AlignedBuffer 64
  deriving DecidableEq

namespace CloseExitMessage

def create : CloseExitMessage :=
  { IMessage.create with Y := AlignedBuffer.zero 16, Z := AlignedBuffer.zero 64 }

def decodeKey (m : CloseExitMessage) (key : List UInt8) : BufferM (CloseExitMessage × Bool) := do
  let some (S, read) ← bEncodeMaybeReadDictInt "S" m.S false key | return (m, false)
  let m := { m with S }
  let some (version, read) ← bEncodeMaybeReadDictInt "V" m.version read key | return (m, false)
  let m := { m with version }
  let some (Y, read) ← bEncodeMaybeReadDictEntry "Y" m.Y read key | return (m, false)
  let m := { m with Y }
  let some (Z, read) ← bEncodeMaybeReadDictEntry "Z" m.Z read key | return (m, false)
  return ({ m with Z }, read)

def clear (m : CloseExitMessage) : CloseExitMessage :=
  { m with Y := AlignedBuffer.zero 16, Z := AlignedBuffer.zero 64 }

end CloseExitMessage

/-- The message types whose own members are left out: `DHTMessage` (`M`),
`PathTransferMessage` (`T`), `service::ProtocolFrame` (`H`), `TransferTrafficMessage` (`I`),
`RejectExitMessage` (`J`) and `ObtainExitMessage` (`O`). -/
inductive OtherKind where
  | M | T | H | I | J | O
  deriving DecidableEq, Repr

/-- The letters under `A` that select a message object. -/
inductive MessageKind where
  | D | L | P | G | U | C
  | other (k : OtherKind)
  deriving DecidableEq, Repr

/-- The `switch (ourKey)` of `operator()`. -/
def MessageKind.ofByte (c : UInt8) : Option MessageKind :=
  if c = 68 then some .D
  else if c = 76 then some .L
  else if c = 77 then some (.other .M)
  else if c = 80 then some .P
  else if c = 84 then some (.other .T)
  else if c = 72 then some (.other .H)
  else if c = 73 then some (.other .I)
  else if c = 71 then some .G
  else if c = 74 then some (.other .J)
  else if c = 79 then some (.other .O)
  else if c = 85 then some .U
  else if c = 67 then some .C
  else none

/-- `DecodeKey` and `Clear` of the message types of `OtherKind`, on their `IMessage` members. -/
structure OtherMessages where
  decodeKey : OtherKind → IMessage → List UInt8 → BufferM (IMessage × Bool)
  clear : OtherKind → IMessage → IMessage

/-- A routing message of any type, as the `IMessage*` that `HandleMessage` hands to the
`IMessageHandler`. -/
inductive Message where
  | D (m : DataDiscardMessage)
  | L (m : PathLatencyMessage)
  | P (m : PathConfirmMessage)
  | G (m : GrantExitMessage)
  | U (m : UpdateExitMessage)
  | C (m : CloseExitMessage)
  | other (k : OtherKind) (m : IMessage)
  deriving DecidableEq

/-- `InboundMessageParser::MessageHolder`. -/
structure MessageHolder where
  D : DataDiscardMessage
  L : PathLatencyMessage
  P : PathConfirmMessage
  G : GrantExitMessage
  U : UpdateExitMessage
  C : CloseExitMessage
  others : OtherKind → IMessage

namespace MessageHolder

/-- `std::make_unique<MessageHolder>()`. -/
def create : MessageHolder :=
  ⟨DataDiscardMessage.create, PathLatencyMessage.create, PathConfirmMessage.create,
    GrantExitMessage.create, UpdateExitMessage.create, CloseExitMessage.create,
    fun _ => IMessage.create⟩

/-- The object `msg` points at. -/
def get (h : MessageHolder) : MessageKind → Message
  | .D => .D h.D
  | .L => .L h.L
  | .P => .P h.P
  | .G => .G h.G
  | .U => .U h.U
  | .C => .C h.C
  | .other k => .other k (h.others k)

/-- A write through `msg` to the `IMessage` members. -/
def modifyBase (h : MessageHolder) (f : IMessage → IMessage) : MessageKind → MessageHolder
  | .D => { h with D := { h.D with toIMessage := f h.D.toIMessage } }
  | .L => { h with L := { h.L with toIMessage := f h.L.toIMessage } }
  | .P => { h with P := { h.P with toIMessage := f h.P.toIMessage } }
  | .G => { h with G := { h.G with toIMessage := f h.G.toIMessage } }
  | .U => { h with U := { h.U with toIMessage := f h.U.toIMessage } }
  | .C => { h with C := { h.C with toIMessage := f h.C.toIMessage } }
  | .other k => { h with others := Function.update h.others k (f (h.others k)) }

variable (others : OtherMessages)

/-- `msg->DecodeKey(*key, buffer)`. -/
def decodeKey (h : MessageHolder) (key : List UInt8) : MessageKind → BufferM (MessageHolder × Bool)
  | .D => do let (D, ok) ← h.D.decodeKey key; return ({ h with D }, ok)
  | .L => do let (L, ok) ← h.L.decodeKey key; return ({ h with L }, ok)
  | .P => do let (P, ok) ← h.P.decodeKey key; return ({ h with P }, ok)
  | .G => do let (G, ok) ← h.G.decodeKey key; return ({ h with G }, ok)
  | .U => do let (U, ok) ← h.U.decodeKey key; return ({ h with U }, ok)
  | .C => do let (C, ok) ← h.C.decodeKey key; return ({ h with C }, ok)
  | .other k => do
    let (m, ok) ← others.decodeKey k (h.others k) key
    return ({ h with others := Function.update h.others k m }, ok)

/-- `msg->Clear()`. -/
def clear (h : MessageHolder) : MessageKind → MessageHolder
  | .D => { h with D := h.D.clear }
  | .L => { h with L := h.L.clear }
  | .P => { h with P := h.P.clear }
  | .G => { h with G := h.G.clear }
  | .U => { h with U := h.U.clear }
  | .C => { h with C := h.C.clear }
  | .other k => { h with others := Function.update h.others k (others.clear k (h.others k)) }

end MessageHolder

/-- `InboundMessageParser`; `ourKey`, only logged, is left out. -/
structure InboundMessageParser where
  version : UInt64
  firstKey : Bool
  msg : Option MessageKind
  holder : MessageHolder

namespace InboundMessageParser

/-- `InboundMessageParser()`. -/
def create : InboundMessageParser := ⟨0, false, none, MessageHolder.create⟩

variable (others : OtherMessages)

/-- `operator()(buffer, key)` with a key: the first key must be `A` with a one-letter value
that selects the object, which is given the parser's version; every later key goes to the
object's `DecodeKey`. -/
def onKey (p : InboundMessageParser) (key : List UInt8) : BufferM (InboundMessageParser × Bool) := do
  if p.firstKey then
    if !keyIs key "A" then return (p, false)
    match ← bencodeReadString with
    | none => return (p, false)
    | some strbuf =>
      if strbuf.length ≠ 1 then return (p, false)
      match (strbuf.head?).bind MessageKind.ofByte with
      | none => return ({ p with firstKey := false }, false)
      | some k =>
        let holder := p.holder.modifyBase (fun m => { m with version := p.version }) k
        return ({ p with firstKey := false, msg := some k, holder }, true)
  else
    -- after the first key `msg` is set; a null `msg` is dereferenced
    let some k := p.msg | failure
    let (holder, ok) ← p.holder.decodeKey others key k
    return ({ p with holder }, ok)

/-- `operator()(buffer, nullptr)`: the end of the dict, an error when it is empty. -/
def onEnd (p : InboundMessageParser) : BufferM (InboundMessageParser × Bool) :=
  return (p, !p.firstKey)

end InboundMessageParser

/-- `BEncodeSeekDictVersion(v, buf, k)`: the integer under the one-byte key `k` is read into `v`,
every other value discarded, and the buffer rewound; whether the dict read. -/
def bEncodeSeekDictVersion (k : UInt8) (v : UInt64) : BufferM (UInt64 × Bool) := do
  let (v, ret) ← bencodeReadDictInto
    (fun v key => do
      if key = [k] then
        match ← bencodeReadInteger with
        | none => return (v, false)
        | some i => return (i, true)
      else return (v, ← bencodeDiscard))
    (fun v => return (v, true)) v
  modify fun b => { b with cur := 0 }
  return (v, ret)

namespace InboundMessageParser

variable (others : OtherMessages)

/-- `ParseMessageBuffer(buf, h, from, r)`: the result of `HandleMessage`, the message handed to
the handler `h` (its `IMessageHandler` call, which returns the result) and the parser after. The
parser's `version` and `msg` are reset and the object `Clear`ed whether or not the message
read; `none` is an access outside the buffer. -/
def parseMessageBuffer (h : Message → Bool) (p : InboundMessageParser) (buf : List UInt8)
    (fromPath : PathID) : Option (Bool × Option Message × InboundMessageParser) := do
  let p := { p with msg := none, firstKey := true }
  let ((v, seek), copy) ← bEncodeSeekDictVersion 86 0 (ofBytes buf)
  let p := if seek then { p with version := v } else p
  let ((p, ok), _) ← bencodeReadDictInto (onKey others) onEnd p copy
  let (result, handed, p) ← if ok then do
      let k ← p.msg
      let holder := p.holder.modifyBase (fun m => { m with from_ := fromPath }) k
      pure (h (holder.get k), some (holder.get k), { p with holder })
    else pure (false, none, p)
  let holder := match p.msg with
    | some k => p.holder.clear others k
    | none => p.holder
  return (result, handed, { p with holder, msg := none, version := 0 })

end InboundMessageParser

end Lokinet.Routing
