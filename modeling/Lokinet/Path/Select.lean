import Lokinet.Path.Path
import Lokinet.Lib.AssocMap
import Lokinet.Net.IPRange

/-!
How a `path::Builder` picks the routers of a new path (llarp/path/pathbuilder.cpp,
config/config.cpp, nodedb.hpp, nodedb.cpp). The router's profiling, build limiter and bootstrap
list are predicates; the order `ForEachPeer` visits sessions in and the order `std::shuffle` leaves
the `NodeDB` in are arguments. A `std::set<RouterContact>` is a list with one contact per `pubkey`,
in insertion order: `Acceptable` does not depend on the set's own order.
-/

namespace Lokinet.Path

open Lokinet.Util Lokinet.Router Lokinet.Net

/-- `profiling_chances`, the default of `IsBadForPath`. -/
def profilingChances : Nat := 4

/-- `net::In6ToHUInt`: the address's bytes, most significant first. -/
def in6ToHUInt (addr : AlignedBuffer 16) : BitVec 128 := BitVec.ofNat 128 (BigEndian.value addr.bytes)

/-- A link session as `ForEachPeer` hands it over. -/
structure PeerSession where
  established : Bool
  outbound : Bool
  remoteRC : RouterContact

/-- The `NodeDB`: contacts by their `pubkey`, as `Put` files them. -/
structure NodeDB where
  entries : AssocMap RouterID RouterContact
  keyed : ∀ k rc, entries.find? k = some rc → rc.pubkey = k

namespace NodeDB

def empty : NodeDB := ⟨∅, fun k rc h => by simp at h⟩

/-- `Put`: the entry under the contact's `pubkey` is erased and the contact put in its place. -/
def put (db : NodeDB) (rc : RouterContact) : NodeDB :=
  ⟨(db.entries.erase rc.pubkey).insert rc.pubkey rc, fun k rc' h => by
    rw [AssocMap.find?_insert, AssocMap.find?_erase] at h
    by_cases hk : k = rc.pubkey
    · simp only [hk, if_true, Option.some.injEq] at h
      rw [← h, hk]
    · simp only [hk, if_false] at h
      exact db.keyed k rc' h⟩

/-- `Get`. -/
def get (db : NodeDB) (pk : RouterID) : Option RouterContact := db.entries.find? pk

/-- An order `std::shuffle` can leave the entries in. -/
def Shuffle (db : NodeDB) : Type :=
  { order : List RouterContact // order.Perm (db.entries.entries.map Prod.snd) }

/-- `GetRandom`: the first contact, in the shuffled order, that `visit` accepts. -/
def getRandom (db : NodeDB) (order : db.Shuffle) (visit : RouterContact → Bool) : Option RouterContact :=
  order.1.find? visit

end NodeDB

/-- What a `Builder` asks its router while it picks hops: the sessions in the order
`ForEachPeer` visits them, `IsBootstrapNode`, the build limiter's `Limited`, the profiler's
`IsBadForPath(pubkey, chances)`, the `NodeDB`, and `[paths]:unique-range-size`. -/
structure BuildContext where
  peers : List PeerSession
  isBootstrapNode : RouterID → Bool
  buildCooldownHit : RouterID → Bool
  isBadForPath : RouterID → Nat → Bool
  nodedb : NodeDB
  uniqueHopsNetmaskSize : Nat

/-- `std::set<RouterContact>::insert`: a contact whose `pubkey` is there already is not added. -/
def insertHop (hops : List RouterContact) (rc : RouterContact) : List RouterContact :=
  if hops.any (fun hop => hop.pubkey == rc.pubkey) then hops else hops ++ [rc]

/-- The loop of `Acceptable` over the addresses of the hops: `false` at the first address whose
network was seen before. All the ranges have one mask, so `std::set<IPRange>::emplace` fails
exactly on a network already there. -/
def acceptableLoop (netmask : BitVec 128) : List (BitVec 128) → List AddressInfo → Bool
  | _, [] => true
  | seenRanges, addr :: addrs =>
    let networkAddr := in6ToHUInt addr.ip &&& netmask
    if networkAddr ∈ seenRanges then false else acceptableLoop netmask (networkAddr :: seenRanges) addrs

/-- `PeerSelectionConfig::Acceptable`: no two addresses of the hops in one `/netmask` network. -/
def acceptable (uniqueHopsNetmaskSize : Nat) (rcs : List RouterContact) : Bool :=
  if uniqueHopsNetmaskSize = 0 then true
  else acceptableLoop (netmaskIpv6Bits (96 + uniqueHopsNetmaskSize)) [] (rcs.flatMap fun hop => hop.addrs)

namespace BuildContext

variable (ctx : BuildContext)

/-- The visitor `SelectFirstHop` hands `ForEachPeer`, given what it has found so far. -/
def visitPeer (exclude : List RouterID) (found : Option RouterContact) (s : PeerSession) : Option RouterContact :=
  if s.established && s.outbound && found.isNone then
    let rc := s.remoteRC
    if ctx.isBootstrapNode rc.pubkey || exclude.contains rc.pubkey || ctx.buildCooldownHit rc.pubkey ||
        ctx.isBadForPath rc.pubkey profilingChances then found
    else some rc
  else found

/-- `SelectFirstHop`: the first established outbound session, in the order `ForEachPeer` visits
them, to a router that is no bootstrap node, not excluded, not limited and not bad for paths. -/
def selectFirstHop (exclude : List RouterID) : Option RouterContact :=
  ctx.peers.foldl (ctx.visitPeer exclude) none

/-- The filter `GetHopsAlignedToForBuild` gives `GetRandom` for a hop between the first and the
last. -/
def middleHopFilter (endpointRC : RouterContact) (exclude : List RouterID) (hops : List RouterContact)
    (rc : RouterContact) : Bool :=
  if exclude.contains rc.pubkey then false
  else
    let hopsSet := hops.foldl insertHop (insertHop [] endpointRC)
    if ctx.isBadForPath rc.pubkey 1 then false
    else if hopsSet.any (fun hop => hop.pubkey == rc.pubkey) then false
    else if !acceptable ctx.uniqueHopsNetmaskSize (insertHop hopsSet rc) then false
    else rc.pubkey != endpointRC.pubkey

/-- The loop of `GetHopsAlignedToForBuild` from hop `idx` on: the endpoint last, and before it a
`GetRandom` pick, from the `idx`-th shuffle, for each hop. -/
def alignedHops (numHops : Nat) (shuffles : Nat → ctx.nodedb.Shuffle) (endpointRC : RouterContact)
    (exclude : List RouterID) (hops : List RouterContact) (idx : Nat) : Option (List RouterContact) :=
  if idx < numHops then
    if idx + 1 = numHops then alignedHops numHops shuffles endpointRC exclude (hops ++ [endpointRC]) (idx + 1)
    else
      match ctx.nodedb.getRandom (shuffles idx) (ctx.middleHopFilter endpointRC exclude hops) with
      | some rc => alignedHops numHops shuffles endpointRC exclude (hops ++ [rc]) (idx + 1)
      | none => none
  else some hops
termination_by numHops - idx

/-- `GetHopsAlignedToForBuild(endpoint, exclude)`. -/
def getHopsAlignedToForBuild (numHops : Nat) (shuffles : Nat → ctx.nodedb.Shuffle) (endpoint : RouterID)
    (exclude : List RouterID) : Option (List RouterContact) :=
  match ctx.selectFirstHop exclude with
  | none => none
  | some first =>
    match ctx.nodedb.get endpoint with
    | none => none
    | some endpointRC => ctx.alignedHops numHops shuffles endpointRC exclude [first] 1

/-- `Builder::GetHopsForBuild`: a path to a router `GetRandom` picks from the `NodeDB`. -/
def getHopsForBuild (numHops : Nat) (pick : ctx.nodedb.Shuffle) (shuffles : Nat → ctx.nodedb.Shuffle) :
    Option (List RouterContact) :=
  match ctx.nodedb.getRandom pick (fun rc => !ctx.isBadForPath rc.pubkey 1) with
  | some rc => ctx.getHopsAlignedToForBuild numHops shuffles rc.pubkey []
  | none => none

end BuildContext

end Lokinet.Path
