import Lokinet.Iwp.MessageBuffer

/-!
An IWP `Session` of llarp/iwp/session.cpp: the handshake of `Recv_LL`, the link intro
messages, `Close`, and the reliable delivery of link messages in fragments with `XMIT`,
`DATA`, `ACKS`, `NACK` and `MACK` packets, `Tick` and `Pump`.

A handler that can throw or read out of bounds returns `none` there. What the session hands to
others is recorded: `sent` are the packets given to `EncryptAndSend`, `delivered` the messages
given to the link layer's `HandleMessage` (with their id), `completions` the calls of
completion handlers. The link layer and the crypto manager are the `Parent`, given to every
handler; their time is the `now` a handler is called with.
-/

namespace Lokinet.Iwp

def introductionSize : Nat := 32 + 32 + 32 + 64
def tokenSize : Nat := 24
/-- `XMITOverhead`. -/
def xmitOverhead : Nat := commandOverhead + packetOverhead + 2 + 8 + 32
def maxSendQueueSize : Nat := 1024 * 16
def plaintextQueueSize : Nat := 32
/-- `MaxACKSInMACK`. -/
def maxACKSInMACK : Nat := 1024 / 8

/-- What a session calls on its link layer and on the crypto manager, with the router's keys
fixed. `limData` is the buffer `SendOurLIM` sends, `none` when signing our LIM fails. -/
structure Parent where
  ourPubKey : List UInt8
  ourEncPubKey : List UInt8
  limData : Option (List UInt8)
  shorthash : List UInt8 → ShortHash
  hmac : List UInt8 → List UInt8 → List UInt8
  xchacha20 : List UInt8 → List UInt8 → List UInt8 → Option (List UInt8)
  verify : List UInt8 → List UInt8 → List UInt8 → Bool
  sign : List UInt8 → List UInt8
  transportDhServer : List UInt8 → List UInt8 → Option (List UInt8)
  transportDhClient : List UInt8 → List UInt8 → Option (List UInt8)

inductive State where
  | initial | introduction | linkIntro | ready | closed
  deriving DecidableEq, Repr

/-- What `GotLIM` is bound to: `GotInboundLIM`, `GotOutboundLIM` or `GotRenegLIM`. -/
inductive LIMHandler where
  | inbound | outbound | reneg
  deriving DecidableEq, Repr

structure Session where
  state : State
  inbound : Bool
  /-- What `GotLIM` is bound to. -/
  limHandler : LIMHandler
  sessionKey : List UInt8
  token : List UInt8
  expectedIdent : List UInt8
  remoteOnionKey : List UInt8
  /-- `m_RemoteRC.pubkey`. -/
  remotePubKey : List UInt8
  /-- `m_ChosenAI.pubkey`. -/
  chosenAIPubKey : List UInt8
  txid : UInt64
  txMsgs : SortedMap Nat OutboundMessage
  rxMsgs : SortedMap Nat InboundMessage
  replayFilter : SortedMap Nat Nat
  sendMACKs : List Nat
  decryptNext : List Packet
  plaintextRecv : List (List Packet)
  sent : List Packet
  delivered : List (Nat × List UInt8)
  completions : List (Option Nat × DeliveryStatus)

namespace Session

/-- The outbound session to a router with identity key `remotePubKey`, at the address with
transport key `chosenAIPubKey`. -/
def mkOutbound (p : Parent) (remotePubKey chosenAIPubKey : List UInt8) : Session :=
  ⟨.initial, false, .outbound, (p.shorthash remotePubKey).bytes, List.replicate tokenSize 0,
    List.replicate 32 0, List.replicate 32 0, remotePubKey, chosenAIPubKey, 0, ∅, ∅, ∅, [], [],
    [], [], [], []⟩

/-- The inbound session, with its random `token`. -/
def mkInbound (p : Parent) (token : List UInt8) : Session :=
  ⟨.initial, true, .inbound, (p.shorthash p.ourPubKey).bytes, token, List.replicate 32 0,
    List.replicate 32 0, List.replicate 32 0, List.replicate 32 0, 0, ∅, ∅, ∅, [], [], [], [], [],
    []⟩

variable (p : Parent) (now : Nat)

/-- `EncryptAndSend(pkt)`. -/
def send (s : Session) (pkt : Packet) : Session := { s with sent := s.sent ++ [pkt] }

/-- A call of a completion handler; the handler of `GotOutboundLIM` makes the session ready on
success. -/
def callHandler (s : Session) (k : Option Nat) (h : CompletionHandler) (st : DeliveryStatus) :
    Session :=
  match h with
  | .none => s
  | .sender => { s with completions := s.completions ++ [(k, st)] }
  | .ourLIM =>
    let s := { s with completions := s.completions ++ [(k, st)] }
    if st = .success then { s with state := .ready } else s

/-- `SendMessageBuffer(msg, completed)`: the message goes under the next id, `emplace` keeping
a message already under it, and its XMIT is sent, with its other fragments when it has more
than one. -/
def sendMessageBuffer (s : Session) (msg : List UInt8) (h : CompletionHandler) :
    Option (Bool × Session) :=
  if s.txMsgs.size ≥ maxSendQueueSize then some (false, s.callHandler none h .dropped)
  else
    let msgid := s.txid.toNat
    let new := OutboundMessage.create p.shorthash msgid msg now h
    let m := (s.txMsgs.find? msgid).getD new
    let s := ({ s with txid := s.txid + 1, txMsgs := (s.txMsgs.emplace msgid new).1 }).send m.xmit
    if msg.length > fragmentSize then do
      let (pkts, m) ← m.flushUnAcked now
      some (true, { s with txMsgs := s.txMsgs.insert msgid m, sent := s.sent ++ pkts })
    else some (true, s)

/-- `SendOurLIM(h)`. -/
def sendOurLIM (s : Session) (h : CompletionHandler) : Option Session :=
  match p.limData with
  | none => some s
  | some data => (s.sendMessageBuffer p now data h).map Prod.snd

/-- `GotInboundLIM`: a LIM whose router key is the one the intro announced makes the session
ready. -/
def gotInboundLIM (s : Session) (pk : List UInt8) : Session :=
  if pk ≠ s.expectedIdent then s
  else { s with state := .ready, limHandler := .reneg, remotePubKey := pk }

/-- `GotOutboundLIM`: a LIM from the router we dialed is answered with our LIM, whose
delivery makes the session ready. -/
def gotOutboundLIM (s : Session) (pk : List UInt8) : Option Session :=
  if pk ≠ s.remotePubKey then some s
  else ({ s with remotePubKey := pk, limHandler := .reneg }).sendOurLIM p now .ourLIM

/-- `GotLIM(msg)` for a verified LIM from the router with key `pk`; `GotRenegLIM` only asks
the link layer to renegotiate. -/
def gotLIM (s : Session) (pk : List UInt8) : Option Session :=
  match s.limHandler with
  | .inbound => some (s.gotInboundLIM pk)
  | .outbound => s.gotOutboundLIM p now pk
  | .reneg => some s

/-- `Close()`. -/
def close (s : Session) : Session :=
  if s.state = .closed then s
  else ({ s with state := .closed }).send (createPacket .clos [] defaultPad)

/-- The MACK packet of at most `MaxACKSInMACK` ids. -/
def mackPacket (ids : List Nat) : Packet :=
  createPacket .mack (UInt8.ofNat ids.length :: (ids.map (BigEndian.bytes 8)).flatten) defaultPad

/-- The MACK packets of `SendMACK` for ids in increasing order, `MaxACKSInMACK` to a packet. -/
def mackPackets : Nat → List Nat → List Packet
  | 0, _ => []
  | _ + 1, [] => []
  | fuel + 1, ids => mackPacket (ids.take maxACKSInMACK) :: mackPackets fuel (ids.drop maxACKSInMACK)

/-- `SendMACK()`: the priority queue pops its ids smallest first. -/
def sendMACK (s : Session) : Session :=
  let ids := s.sendMACKs.insertionSort (· ≤ ·)
  { s with sendMACKs := [], sent := s.sent ++ mackPackets ids.length ids }

/-- The loop of `Pump` over the inbound messages: an ACKS for each that is due. -/
def sendDueACKS : List (Nat × InboundMessage) → Session → Session
  | [], s => s
  | (k, m) :: es, s =>
    if m.shouldSendACKS now then
      sendDueACKS es ({ s with rxMsgs := s.rxMsgs.insert k { m with lastACKSent := now } }.send
        m.ackPacket)
    else sendDueACKS es s

/-- The loop of `Pump` over the outbound messages: `FlushUnAcked` for each that is due. -/
def flushDue : List (Nat × OutboundMessage) → Session → Option Session
  | [], s => some s
  | (k, m) :: es, s =>
    if m.shouldFlush now then do
      let (pkts, m') ← m.flushUnAcked now
      flushDue es { s with txMsgs := s.txMsgs.insert k m', sent := s.sent ++ pkts }
    else flushDue es s

/-- `DecryptMessageInPlace(pkt)`: the MAC over everything after it, then the body after the
nonce decrypted. -/
def decryptMessageInPlace (key : List UInt8) (pkt : Packet) : Option Packet :=
  if pkt.length ≤ packetOverhead then none
  else if p.hmac key (pkt.drop 32) ≠ pkt.take 32 then none
  else (p.xchacha20 key ((pkt.drop 32).take 32) (pkt.drop packetOverhead)).map
    (pkt.take packetOverhead ++ ·)

/-- `DecryptWorker`, run on the packets `Pump` queued: those that decrypt and carry our
protocol version go to the plaintext queue, which holds `PlaintextQueueSize` batches. -/
def decryptWorker (s : Session) : Session :=
  let msgs := s.decryptNext.filterMap fun pkt =>
    (decryptMessageInPlace p s.sessionKey pkt).filter fun d => d[packetOverhead]? = some llarpProtoVersion
  { s with
    decryptNext := []
    plaintextRecv := if s.plaintextRecv.length < plaintextQueueSize then s.plaintextRecv ++ [msgs]
      else s.plaintextRecv }

/-- `Pump()`: ACKS and retransmissions while the session is up, then the queued packets to
the decrypt worker. -/
def pump (s : Session) : Option Session := do
  let s ← if s.state = .ready ∨ s.state = .linkIntro then
      let s := sendDueACKS now s.rxMsgs.entries s
      flushDue now s.txMsgs.entries s
    else some s
  if s.decryptNext = [] then some s else some (s.decryptWorker p)

/-- `HandleRecvMsgCompleted(msg)`: the message goes to the link layer only if its id enters the
replay filter now. -/
def handleRecvMsgCompleted (s : Session) (m : InboundMessage) : Session :=
  let (rf, inserted) := s.replayFilter.emplace m.msgID now
  let s := { s with replayFilter := rf }
  let s := if inserted then
      ({ s with delivered := s.delivered ++ [(m.msgID, m.data)] }).send m.ackPacket
    else s
  { s with rxMsgs := s.rxMsgs.erase m.msgID }

/-- The end of `HandleXMIT` and `HandleDATA`: a complete message whose digest matches is
delivered. -/
def finishRecv (s : Session) (m : InboundMessage) : Option Session := do
  let done ← m.isCompleted
  if done && m.verify p.shorthash then some (s.handleRecvMsgCompleted now m) else some s

/-- `HandleXMIT(data)`. -/
def handleXMIT (s : Session) (data : Packet) : Option Session :=
  if data.length < xmitOverhead then some s
  else
    let sz := readBE data (commandOverhead + packetOverhead) 2
    let rxid := readBE data (commandOverhead + packetOverhead + 2) 8
    let h := ShortHash.ofBytes (data.drop (commandOverhead + packetOverhead + 10))
    if (s.replayFilter.find? rxid).isSome then some { s with sendMACKs := s.sendMACKs ++ [rxid] }
    else match s.rxMsgs.find? rxid with
      | some _ => some s
      | none =>
        let m := InboundMessage.create rxid sz h now
        let s := { s with rxMsgs := s.rxMsgs.insert rxid m }
        let sz := min sz fragmentSize
        -- the short-XMIT path: the packet carries the first fragment
        if data.length - xmitOverhead = sz then do
          let m ← m.handleData 0 (data.drop (data.length - sz)) now
          ({ s with rxMsgs := s.rxMsgs.insert rxid m }).finishRecv p now m
        else some s

/-- `HandleDATA(data)`: a fragment of a message we have no XMIT for is answered with a NACK,
or with a MACK when the replay filter holds its id. -/
def handleDATA (s : Session) (data : Packet) : Option Session :=
  if data.length < commandOverhead + 2 + 8 + packetOverhead then some s
  else
    let sz := readBE data (commandOverhead + packetOverhead) 2
    let rxid := readBE data (commandOverhead + 2 + packetOverhead) 8
    match s.rxMsgs.find? rxid with
    | none =>
      if (s.replayFilter.find? rxid).isSome then some { s with sendMACKs := s.sendMACKs ++ [rxid] }
      else some (s.send (createPacket .nack (BigEndian.bytes 8 rxid) defaultPad))
    | some m => do
      let m ← m.handleData sz (data.drop (packetOverhead + 12)) now
      ({ s with rxMsgs := s.rxMsgs.insert rxid m }).finishRecv p now m

/-- The end of `HandleACKS` and `HandleMACK` for a transmitted message: its handler is called
with success and it leaves the queue. -/
def completeTX (s : Session) (k : Nat) (m : OutboundMessage) : Session :=
  let s := s.callHandler (some k) m.completed .success
  { s with txMsgs := s.txMsgs.erase k }

/-- `HandleACKS(data)`: the bitmask replaces the acknowledged fragments; the message is done
when all are, and its missing fragments are sent again otherwise. -/
def handleACKS (s : Session) (data : Packet) : Option Session :=
  if data.length < 11 + packetOverhead then some s
  else
    let txid := readBE data (2 + packetOverhead) 8
    match s.txMsgs.find? txid with
    | none => some s
    | some m => do
      let m := m.ack (data.getD (10 + packetOverhead) 0)
      let done ← m.isTransmitted
      if done then some (s.completeTX txid m)
      else
        let (pkts, m) ← m.flushUnAcked now
        some { s with txMsgs := s.txMsgs.insert txid m, sent := s.sent ++ pkts }

/-- `HandleNACK(data)`: the XMIT of the message is sent again. -/
def handleNACK (s : Session) (data : Packet) : Session :=
  if data.length < commandOverhead + 8 + packetOverhead then s
  else match s.txMsgs.find? (readBE data (commandOverhead + packetOverhead) 8) with
    | some m => s.send m.xmit
    | none => s

/-- The loop of `HandleMACK` over the ids it carries. -/
def ackAll : List Nat → Session → Session
  | [], s => s
  | k :: ks, s =>
    match s.txMsgs.find? k with
    | some m => ackAll ks (s.completeTX k m)
    | none => ackAll ks s

/-- `HandleMACK(data)`: every message whose id it carries is done. -/
def handleMACK (s : Session) (data : Packet) : Session :=
  if data.length < 3 + packetOverhead then s
  else
    let numAcks := (data.getD (commandOverhead + packetOverhead) 0).toNat
    if data.length < 1 + commandOverhead + packetOverhead + numAcks * 8 then s
    else ackAll ((List.range numAcks).map fun i => readBE data (3 + packetOverhead + 8 * i) 8) s

/-- One packet of the `switch` of `HandlePlaintext`; reading the command of a packet of
`PacketOverhead + 1` bytes is out of bounds. -/
def dispatch (s : Session) (pkt : Packet) : Option Session :=
  match pkt[packetOverhead + 1]? with
  | none => none
  | some b =>
    match Command.ofByte? b with
    | some .xmit => s.handleXMIT p now pkt
    | some .data => s.handleDATA p now pkt
    | some .acks => s.handleACKS now pkt
    | some .ping => some s
    | some .nack => some (s.handleNACK pkt)
    | some .clos => some s.close
    | some .mack => some (s.handleMACK pkt)
    | none => some s

def dispatchAll : List Packet → Session → Option Session
  | [], s => some s
  | pkt :: pkts, s => do dispatchAll pkts (← s.dispatch p now pkt)

/-- `HandlePlaintext()` on the packets taken from the plaintext queue: each is handled, then
the MACKs are sent and the session pumped. -/
def handlePlaintextPackets (s : Session) (pkts : List Packet) : Option Session := do
  let s ← dispatchAll p now pkts s
  s.sendMACK.pump p now

/-- `HandlePlaintext()`. -/
def handlePlaintext (s : Session) : Option Session :=
  ({ s with plaintextRecv := [] }).handlePlaintextPackets p now s.plaintextRecv.flatten

/-- The first loop of `Tick`: messages that timed out are dropped and their handlers told. -/
def timeoutTX : List (Nat × OutboundMessage) → Session → Session
  | [], s => s
  | (k, m) :: es, s =>
    if m.isTimedOut now then
      let s := s.callHandler (some k) m.completed .dropped
      timeoutTX es { s with txMsgs := s.txMsgs.erase k }
    else timeoutTX es s

/-- The second loop of `Tick`: inbound messages that timed out are dropped and their ids put in
the replay filter. -/
def timeoutRX : List (Nat × InboundMessage) → Session → Session
  | [], s => s
  | (k, m) :: es, s =>
    if m.isTimedOut now then
      timeoutRX es { s with
        replayFilter := (s.replayFilter.emplace k now).1
        rxMsgs := s.rxMsgs.erase k }
    else timeoutRX es s

/-- `Tick(now)`; resetting the rate counters is left out. -/
def tick (s : Session) : Session :=
  let s := timeoutTX now s.txMsgs.entries s
  let s := timeoutRX now s.rxMsgs.entries s
  -- decay of the replay window
  { s with replayFilter := s.replayFilter.filter fun _ t => !(t + replayWindow ≤ now) }

/-- The reply to an intro and the session request: our token after the MAC and nonce. -/
def tokenPacket (token : List UInt8) : Packet := List.replicate packetOverhead 0 ++ token

/-- `GenerateAndSendIntro()` with the random nonce `n`. -/
def generateAndSendIntro (s : Session) (n : List UInt8) : Session :=
  let signed := p.ourPubKey ++ p.ourEncPubKey ++ n
  let s := ({ s with state := .introduction }).send
    (List.replicate packetOverhead 0 ++ signed ++ p.sign signed)
  match p.transportDhClient s.chosenAIPubKey n with
  | none => s
  | some key => { s with sessionKey := key }

/-- `Start()`. -/
def start (s : Session) (n : List UInt8) : Session :=
  if s.inbound then s else s.generateAndSendIntro p n

/-- `HandleGotIntro(pkt)`: the router key and onion key are taken before the signature is
checked. -/
def handleGotIntro (s : Session) (pkt : Packet) : Session :=
  if pkt.length < introductionSize + packetOverhead then s
  else
    let ident := (pkt.drop packetOverhead).take 32
    let onion := (pkt.drop (packetOverhead + 32)).take 32
    let n := (pkt.drop (packetOverhead + 64)).take 32
    let z := (pkt.drop (packetOverhead + 96)).take 64
    let s := { s with expectedIdent := ident, remoteOnionKey := onion }
    if !p.verify ident ((pkt.drop packetOverhead).take (introductionSize - 64)) z then s
    else match p.transportDhServer onion n with
      | none => s
      | some key =>
        let s := ({ s with sessionKey := key }).send (tokenPacket s.token)
        { s with state := .introduction }

/-- `HandleCreateSessionRequest(pkt)`: the token we sent comes back, and we send our LIM. -/
def handleCreateSessionRequest (s : Session) (pkt : Packet) : Option Session :=
  match decryptMessageInPlace p s.sessionKey pkt with
  | none => some s
  | some pkt =>
    if pkt.length < tokenSize + packetOverhead then some s
    else if (pkt.drop packetOverhead).take tokenSize ≠ s.token then some s
    else ({ s with state := .linkIntro }).sendOurLIM p now .none

/-- `HandleGotIntroAck(pkt)`: the token is taken and sent back as the session request. -/
def handleGotIntroAck (s : Session) (pkt : Packet) : Session :=
  if pkt.length < tokenSize + packetOverhead then s
  else match decryptMessageInPlace p s.sessionKey pkt with
    | none => s
    | some pkt =>
      let token := (pkt.drop packetOverhead).take tokenSize
      let s := ({ s with token }).send (tokenPacket token)
      { s with state := .linkIntro }

/-- `Recv_LL(pkt)`: the handshake in the first states; afterwards, in every other state
`Closed` included, the packet is queued for the decrypt worker. -/
def recvLL (s : Session) (pkt : Packet) : Option (Bool × Session) :=
  match s.state with
  | .initial =>
    if s.inbound then
      match decryptMessageInPlace p s.sessionKey pkt with
      | some d => some (true, s.handleGotIntro p d)
      | none => some (false, s)
    else some (true, s)
  | .introduction =>
    if s.inbound then (s.handleCreateSessionRequest p now pkt).map ((true, ·))
    else some (true, s.handleGotIntroAck p pkt)
  | _ => some (true, { s with decryptNext := s.decryptNext ++ [pkt] })

end Session

/-- What can happen to a session: a packet from the network, the plaintext queue handled, a
verified LIM handed to `GotLIM`, a link message to send, the timers, and `Close` and `Start`. -/
inductive Event where
  | recvLL (pkt : Packet)
  | handlePlaintext
  | gotLIM (pk : List UInt8)
  | sendMessage (msg : List UInt8)
  | tick
  | pump
  | close
  | start (n : List UInt8)

namespace Session

variable (p : Parent)

/-- One event at time `now`; `none` where the code throws or reads out of bounds. -/
def step (now : Nat) (s : Session) : Event → Option Session
  | .recvLL pkt => (s.recvLL p now pkt).map Prod.snd
  | .handlePlaintext => s.handlePlaintext p now
  | .gotLIM pk => s.gotLIM p now pk
  | .sendMessage msg => (s.sendMessageBuffer p now msg .sender).map Prod.snd
  | .tick => some (s.tick now)
  | .pump => s.pump p now
  | .close => some s.close
  | .start n => some (s.start p n)

/-- A run of events, each at its time. -/
def run : Session → List (Nat × Event) → Option Session
  | s, [] => some s
  | s, (now, e) :: es => do (← s.step p now e).run es

end Session

end Lokinet.Iwp
