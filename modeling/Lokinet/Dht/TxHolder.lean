import Lokinet.Lib.AssocMap
import Lokinet.Util.Aligned

/-!
The bookkeeping of pending DHT lookups (llarp/dht/txholder.hpp). A `TXHolder<K, V>` keeps, for
each peer asked (a `TXOwner`), the transaction waiting for its reply; for each key looked up, the
owners waiting for it (`waiting`, a multimap) and the time at which the lookup expires.

What the holder does to a transaction is call it: `Start` when it is the first for its key,
`OnFound` for each value a reply brings, and `SendReply` when it is done. These calls are the
events each operation returns, in order. Of a `TX<K, V>` the holder reads only its target.
`time_now_ms()` is an argument of `NewTX`.
-/

namespace Lokinet.Dht

open Lokinet.Util

/-- `TXOwner`: the peer a request went to and the id of the transaction. -/
structure TXOwner where
  node : AlignedBuffer 32
  txid : UInt64
  deriving DecidableEq

/-- What `TXHolder` reads of a `TX<K, V>`. -/
structure TX (K : Type) where
  target : K
  deriving DecidableEq

/-- The calls `TXHolder` makes on its transactions. -/
inductive Event (V : Type) where
  | start (owner : TXOwner)
  | onFound (owner : TXOwner) (askedPeer : AlignedBuffer 32) (value : V)
  | sendReply (owner : TXOwner)

/-- The owners of the transactions sent their replies, in order. -/
def replies {V : Type} (evs : List (Event V)) : List TXOwner :=
  evs.filterMap fun
    | .sendReply o => some o
    | _ => none

structure TXHolder (K : Type) where
  waiting : List (K × TXOwner)
  timeouts : AssocMap K Nat
  tx : AssocMap TXOwner (TX K)

namespace TXHolder

variable {K V : Type} [DecidableEq K]

def empty : TXHolder K := ⟨[], ∅, ∅⟩

def hasLookupFor (h : TXHolder K) (target : K) : Bool := h.timeouts.contains target

def getPendingLookupFrom (h : TXHolder K) (owner : TXOwner) : Option (TX K) := h.tx.find? owner

/-- `NewTX`: a transaction is started only when no other waits for its key, and the key's
timeout is set only when it has none. -/
def newTX (h : TXHolder K) (askpeer _whoasked : TXOwner) (k : K) (t : TX K) (now requestTimeout : Nat) :
    TXHolder K × List (Event V) :=
  let count := h.waiting.countP fun e => e.1 = k
  let tx := (h.tx.emplace askpeer t).1
  let waiting := h.waiting ++ [(k, askpeer)]
  let timeouts := if h.timeouts.contains k then h.timeouts else h.timeouts.insert k (now + requestTimeout)
  (⟨waiting, timeouts, tx⟩, if count = 0 then [.start askpeer] else [])

/-- The loop of `Inform` over the owners waiting for the key. -/
def informLoop (fromOwner : TXOwner) (values : List V) (sendreply : Bool) :
    List TXOwner → AssocMap TXOwner (TX K) → AssocMap TXOwner (TX K) × List (Event V)
  | [], tx => (tx, [])
  | o :: os, tx =>
    match tx.find? o with
    | none => informLoop fromOwner values sendreply os tx
    | some _ =>
      let found := values.map (Event.onFound o fromOwner.node)
      if sendreply then
        let r := informLoop fromOwner values sendreply os (tx.erase o)
        (r.1, found ++ .sendReply o :: r.2)
      else
        let r := informLoop fromOwner values sendreply os tx
        (r.1, found ++ r.2)

def inform (h : TXHolder K) (fromOwner : TXOwner) (key : K) (values : List V)
    (sendreply removeTimeouts : Bool) : TXHolder K × List (Event V) :=
  let r := informLoop fromOwner values sendreply ((h.waiting.filter fun e => e.1 = key).map Prod.snd) h.tx
  let waiting := if sendreply then h.waiting.filter (fun e => e.1 ≠ key) else h.waiting
  let timeouts := if removeTimeouts then h.timeouts.erase key else h.timeouts
  (⟨waiting, timeouts, r.1⟩, r.2)

def found (h : TXHolder K) (fromOwner : TXOwner) (k : K) (values : List V) : TXHolder K × List (Event V) :=
  h.inform fromOwner k values true true

/-- `NotFound`: the replying owner's transaction names the key; its second argument is unused. -/
def notFound (h : TXHolder K) (fromOwner : TXOwner) : TXHolder K × List (Event V) :=
  match h.tx.find? fromOwner with
  | none => (h, [])
  | some t => h.inform fromOwner t.target [] true true

/-- The loop of `Expire`, over the entries of `timeouts` as they stand when it begins: `Inform`
leaves `timeouts` alone here, so the live map differs from them only by the entries passed. -/
def expireLoop (now : Nat) : List (K × Nat) → TXHolder K → TXHolder K × List (Event V)
  | [], h => (h, [])
  | (k, d) :: es, h =>
    if now ≥ d then
      let r := h.inform ⟨AlignedBuffer.zero 32, 0⟩ k ([] : List V) true false
      let r' := expireLoop now es { r.1 with timeouts := r.1.timeouts.erase k }
      (r'.1, r.2 ++ r'.2)
    else expireLoop now es h

def expire (h : TXHolder K) (now : Nat) : TXHolder K × List (Event V) :=
  expireLoop now h.timeouts.entries h

inductive Op (K V : Type) where
  | newTX (askpeer whoasked : TXOwner) (k : K) (t : TX K) (now requestTimeout : Nat)
  | found (fromOwner : TXOwner) (k : K) (values : List V)
  | notFound (fromOwner : TXOwner)
  | expire (now : Nat)

def step (h : TXHolder K) : Op K V → TXHolder K × List (Event V)
  | .newTX askpeer whoasked k t now requestTimeout => h.newTX askpeer whoasked k t now requestTimeout
  | .found fromOwner k values => h.found fromOwner k values
  | .notFound fromOwner => h.notFound fromOwner
  | .expire now => h.expire now

def run (h : TXHolder K) : List (Op K V) → TXHolder K × List (Event V)
  | [] => (h, [])
  | op :: ops =>
    let r := h.step op
    let r' := run r.1 ops
    (r'.1, r.2 ++ r'.2)

end TXHolder

end Lokinet.Dht
