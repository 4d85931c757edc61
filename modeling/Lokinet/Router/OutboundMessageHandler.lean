import Lokinet.Path.Path
import Lokinet.Lib.AssocMap
import Lokinet.Proofs.ThreadQueue

/-!
The router's `OutboundMessageHandler` (llarp/router/outbound_message_handler.cpp), as a state
machine over the calls it gets on the event loop: `QueueMessage`, `Tick`, `RemovePath`, the
session maker's result, and the link layer calling a completion handler it kept. The shared
`thread::Queue`, run by one thread, is the bounded `Fifo`. What the link manager says of the
remote, whether the message encodes, and what the link layer does with the `n`-th message
(`link n`) are arguments; a callback is `some k`, or `none` for an empty `std::function`.
-/

namespace Lokinet.Router

open Lokinet.Util Lokinet.Path Lokinet.Thread

inductive SendStatus where
  | success
  | timeout
  | noLink
  | invalidRouter
  | routerNotFound
  | congestion
  deriving DecidableEq

inductive SessionResult where
  | establish
  | timeout
  | routerNotFound
  | invalidRouter
  | noLink
  | establishFail
  deriving DecidableEq

/-- `ILinkSession::DeliveryStatus`. -/
inductive DeliveryStatus where
  | deliverySuccess
  | deliveryDropped
  deriving DecidableEq

/-- `ToSendStatus`. -/
def toSendStatus : SessionResult → SendStatus
  | .establish => .success
  | .timeout | .establishFail => .timeout
  | .routerNotFound => .routerNotFound
  | .invalidRouter => .invalidRouter
  | .noLink => .noLink

/-- What the link layer does with a message `SendTo` is given: call the completion handler before
returning, keep it and call it once later, or return `false` and never call it (`LinkManager`
stopping, or no session for `ILinkLayer::SendTo` to pick). -/
inductive LinkOutcome where
  | complete (status : DeliveryStatus)
  | defer
  | refuse
  deriving DecidableEq

def maxPathQueueSize : Nat := 100

def maxOutboundMessagesPerTick : Nat := 500

def maxOutboundQueueSize : Nat := 1000

/-- `zeroID`, the path id of routing messages and of messages waiting for a session. -/
def zeroID : PathID := AlignedBuffer.zero 16

/-- How long `recentlyRemovedPaths` keeps a path, in milliseconds. -/
def recentlyRemovedInterval : Nat := 5000

structure MessageQueueEntry (κ : Type) where
  priority : UInt16
  message : List UInt8 × Option κ
  pathid : PathID
  router : RouterID

/-- `MessageQueue::push`. A `MessageQueue` is a `std::priority_queue` whose `operator<` puts the
lowest `priority` on top; the model keeps the entries top first. `std::priority_queue` leaves the
order of equal priorities unspecified; the model fixes one, a new entry after those of no greater
priority, so entries of one priority leave in the order they came. -/
def pushEntry {κ : Type} : List (MessageQueueEntry κ) → MessageQueueEntry κ → List (MessageQueueEntry κ)
  | [], e => [e]
  | x :: xs, e => if e.priority < x.priority then e :: x :: xs else x :: pushEntry xs e

/-- The handler, with what the link layer keeps of it: the completion handlers it holds, by the
number of the message, and the callbacks put on the event loop, in order. -/
structure OutboundMessageHandler (κ : Type) where
  outboundQueue : Fifo (MessageQueueEntry κ)
  maxQueueSize : Nat
  recentlyRemovedPaths : AssocMap PathID Nat
  removedSomePaths : Bool
  pendingSessionMessageQueues : AssocMap RouterID (List (MessageQueueEntry κ))
  outboundMessageQueues : AssocMap PathID (List (MessageQueueEntry κ))
  roundRobinOrder : List PathID
  sent : Nat
  linkPending : List (Nat × Option κ)
  scheduled : List (κ × SendStatus)

namespace OutboundMessageHandler

variable {κ : Type}

/-- The constructor and `Init`: no message anywhere, and the queue of routing messages. -/
def init (maxQueueSize : Nat) : OutboundMessageHandler κ where
  outboundQueue := Fifo.empty
  maxQueueSize := maxQueueSize
  recentlyRemovedPaths := ∅
  removedSomePaths := false
  pendingSessionMessageQueues := ∅
  outboundMessageQueues := (∅ : AssocMap PathID (List (MessageQueueEntry κ))).insert zeroID []
  roundRobinOrder := []
  sent := 0
  linkPending := []
  scheduled := []

variable (link : Nat → RouterID → LinkOutcome) (h : OutboundMessageHandler κ)

def doCallback (callback : Option κ) (status : SendStatus) : OutboundMessageHandler κ :=
  match callback with
  | none => h
  | some k => { h with scheduled := h.scheduled ++ [(k, status)] }

/-- The status the completion handler `Send` gives the link layer reports. -/
def deliveryToSendStatus (status : DeliveryStatus) : SendStatus :=
  if status = .deliverySuccess then .success else .congestion

/-- `Send`: the message goes to `SendTo`, whose result is not looked at. -/
def send (remote : RouterID) (msg : List UInt8 × Option κ) : OutboundMessageHandler κ :=
  let h' := { h with sent := h.sent + 1 }
  match link h.sent remote with
  | .complete status => h'.doCallback msg.2 (deliveryToSendStatus status)
  | .defer => { h' with linkPending := h'.linkPending ++ [(h.sent, msg.2)] }
  | .refuse => h'

def queueOutboundMessage (remote : RouterID) (msg : List UInt8 × Option κ) (pathid : PathID)
    (priority : UInt16) : OutboundMessageHandler κ :=
  let r := h.outboundQueue.step h.maxQueueSize (.tryPushBack ⟨priority, msg, pathid, remote⟩)
  match r.1 with
  | .pushed .success => { h with outboundQueue := r.2 }
  | _ => h.doCallback msg.2 .congestion

/-- `QueueMessage`, given what the link manager says of the remote (`SessionIsClient`,
`SessionIsAllowed`, `HasSessionTo`) and the encoded message, if it encodes. The first test reads
the `std::optional<bool>` of `SessionIsClient` as a boolean: it fails only when there is no
session. A message waiting for a session gets the default path id. -/
def queueMessage (remote : RouterID) (isClient : Option Bool) (allowed hasSession : Bool)
    (encoded : Option (List UInt8)) (priority : UInt16) (pathid : PathID) (callback : Option κ) :
    Bool × OutboundMessageHandler κ :=
  if isClient.isNone && !allowed then (true, h.doCallback callback .invalidRouter)
  else
    match encoded with
    | none => (false, h)
    | some buf =>
      if hasSession then (true, h.queueOutboundMessage remote (buf, callback) pathid priority)
      else
        let queues := (h.pendingSessionMessageQueues.emplace remote []).1
        let queue := (queues.find? remote).getD []
        let entry : MessageQueueEntry κ := ⟨priority, (buf, callback), zeroID, remote⟩
        (true, { h with pendingSessionMessageQueues := queues.insert remote (pushEntry queue entry) })

/-- `RemovePath`: the path is remembered as removed and its queue erased. -/
def removePath (pathid : PathID) (now : Nat) : OutboundMessageHandler κ :=
  { h with
    recentlyRemovedPaths := (h.recentlyRemovedPaths.emplace pathid now).1
    outboundMessageQueues := h.outboundMessageQueues.erase pathid
    removedSomePaths := true }

/-- `FinalizeSessionRequest`: the messages that waited for the session are sent, or their
callbacks told the status. -/
def finalizeSessionRequest (router : RouterID) (status : SendStatus) : OutboundMessageHandler κ :=
  match h.pendingSessionMessageQueues.find? router with
  | none => h
  | some movedMessages =>
    movedMessages.foldl
      (fun h entry => if status = .success then h.send link entry.router entry.message
        else h.doCallback entry.message.2 status)
      { h with pendingSessionMessageQueues := h.pendingSessionMessageQueues.erase router }

def onSessionResult (router : RouterID) (result : SessionResult) : OutboundMessageHandler κ :=
  h.finalizeSessionRequest link router (toSendStatus result)

/-- `recentlyRemovedPaths.Decay(now)`. -/
def decay (now : Nat) : OutboundMessageHandler κ :=
  { h with recentlyRemovedPaths := h.recentlyRemovedPaths.filter fun _ t => !(recentlyRemovedInterval + t ≤ now) }

/-- An entry of the shared queue put on its path's queue: a new path joins the round robin, and
a full path queue drops the entry with `Congestion`. -/
def fileEntry (entry : MessageQueueEntry κ) : OutboundMessageHandler κ :=
  let emplaced := h.outboundMessageQueues.emplace entry.pathid []
  let order := if emplaced.2 = true ∧ entry.pathid ≠ zeroID then h.roundRobinOrder ++ [entry.pathid]
    else h.roundRobinOrder
  let pathQueue := (emplaced.1.find? entry.pathid).getD []
  if pathQueue.length < maxPathQueueSize ∨ entry.pathid = zeroID then
    { h with outboundMessageQueues := emplaced.1.insert entry.pathid (pushEntry pathQueue entry), roundRobinOrder := order }
  else ({ h with outboundMessageQueues := emplaced.1, roundRobinOrder := order }).doCallback entry.message.2 .congestion

/-- The loop of `ProcessOutboundQueue` over the entries of the shared queue: each is popped, and
the loop returns at the first one whose path was removed recently. -/
def processLoop : List (MessageQueueEntry κ) → OutboundMessageHandler κ → OutboundMessageHandler κ
  | [], h => h
  | entry :: rest, h =>
    let h := { h with outboundQueue := { h.outboundQueue with items := rest } }
    if h.recentlyRemovedPaths.contains entry.pathid then h else processLoop rest (h.fileEntry entry)

def processOutboundQueue : OutboundMessageHandler κ := processLoop h.outboundQueue.items h

/-- The routing messages, top first, each handed to `Send`. -/
def sendAll : OutboundMessageHandler κ → List (MessageQueueEntry κ) → OutboundMessageHandler κ
  | h, [] => h
  | h, entry :: rest => sendAll (h.send link entry.router entry.message) rest

/-- The loop of `SendRoundRobin` over the paths in `roundRobinOrder`, from `sentCount` messages
sent and `emptyCount` empty queues seen in a row; `fuel` bounds its rounds. -/
def roundRobinLoop (numQueues : Nat) :
    Nat → OutboundMessageHandler κ → Nat → Nat → OutboundMessageHandler κ
  | 0, h, _, _ => h
  | fuel + 1, h, sentCount, emptyCount =>
    if sentCount < maxOutboundMessagesPerTick then
      match h.roundRobinOrder with
      | [] => h
      | pathid :: order =>
        let indexed := h.outboundMessageQueues.index pathid []
        let h := { h with outboundMessageQueues := indexed.2, roundRobinOrder := order }
        match indexed.1 with
        | entry :: rest =>
          let h := h.send link entry.router entry.message
          let h := { h with
            outboundMessageQueues := h.outboundMessageQueues.insert pathid rest
            roundRobinOrder := h.roundRobinOrder ++ [pathid] }
          if 0 = numQueues then h else roundRobinLoop numQueues fuel h (sentCount + 1) 0
        | [] =>
          let h := { h with roundRobinOrder := h.roundRobinOrder ++ [pathid] }
          if emptyCount + 1 = numQueues then h else roundRobinLoop numQueues fuel h sentCount (emptyCount + 1)
    else h

/-- `SendRoundRobin`: every routing message, then the paths' messages in turn; paths removed
since the last tick leave the round robin first. -/
def sendRoundRobin : OutboundMessageHandler κ :=
  let indexed := h.outboundMessageQueues.index zeroID []
  let h := sendAll link { h with outboundMessageQueues := indexed.2 } indexed.1
  let h := { h with outboundMessageQueues := h.outboundMessageQueues.insert zeroID [] }
  let h := if h.removedSomePaths then
      { h with roundRobinOrder := h.roundRobinOrder.filter fun p => h.outboundMessageQueues.contains p }
    else h
  let h := { h with removedSomePaths := false }
  if h.roundRobinOrder.length = 0 then h
  else roundRobinLoop link h.roundRobinOrder.length
    ((maxOutboundMessagesPerTick + 1) * (h.roundRobinOrder.length + 1)) h 0 0

def tick (now : Nat) : OutboundMessageHandler κ :=
  ((h.decay now).processOutboundQueue).sendRoundRobin link

/-- The link layer calls the completion handler it kept for the `n`-th message. -/
def linkCompleted (n : Nat) (status : DeliveryStatus) : OutboundMessageHandler κ :=
  match h.linkPending.find? (fun p => p.1 == n) with
  | none => h
  | some p => ({ h with linkPending := h.linkPending.filter fun p => p.1 != n }).doCallback p.2
      (deliveryToSendStatus status)

end OutboundMessageHandler

/-- The calls the handler gets. -/
inductive Event (κ : Type) where
  | queueMessage (remote : RouterID) (isClient : Option Bool) (allowed hasSession : Bool)
      (encoded : Option (List UInt8)) (priority : UInt16) (pathid : PathID) (callback : Option κ)
  | tick (now : Nat)
  | removePath (pathid : PathID) (now : Nat)
  | sessionResult (router : RouterID) (result : SessionResult)
  | linkCompleted (n : Nat) (status : DeliveryStatus)

namespace OutboundMessageHandler

variable {κ : Type} (link : Nat → RouterID → LinkOutcome)

def step (h : OutboundMessageHandler κ) : Event κ → OutboundMessageHandler κ
  | .queueMessage remote isClient allowed hasSession encoded priority pathid callback =>
    (h.queueMessage remote isClient allowed hasSession encoded priority pathid callback).2
  | .tick now => h.tick link now
  | .removePath pathid now => h.removePath pathid now
  | .sessionResult router result => h.onSessionResult link router result
  | .linkCompleted n status => h.linkCompleted n status

def run (h : OutboundMessageHandler κ) (events : List (Event κ)) : OutboundMessageHandler κ :=
  events.foldl (step link) h

end OutboundMessageHandler

end Lokinet.Router
