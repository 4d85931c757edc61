import Lokinet.Lib.StdSet
import Lokinet.Util.Aligned

/-!
The DHT's table of connected routers (llarp/dht/bucket.hpp) and the exploratory router lookup
that reads it (llarp/dht/context.cpp). A `Bucket` is a `std::map` ordered by `XorMetric(us)`, the
distance of a key from our own; the lookups scan it for the keys nearest a target, by the
distance from the target. Of a node the lookups read only its key. Routers known to be bad for
connecting, `routerProfiling().IsBadForConnect`, are a predicate given to the lookup.
-/

namespace Lokinet.Dht

open Lokinet.Util

/-- `Key_t`: 32 bytes. -/
abbrev Key := AlignedBuffer 32

namespace Key

/-- `Key_t::operator<`: the bytes compared as `std::array` compares them. -/
def lt (a b : Key) : Bool := decide (a.bytes < b.bytes)

/-- A key after `Fill(0xff)`: the largest distance. -/
def allOnes : Key := ⟨List.replicate 32 0xff, List.length_replicate⟩

end Key

/-- `XorMetric(us)`: keys ordered by their distance from `us`. -/
def xorMetric (us a b : Key) : Bool := Key.lt (us ^^^ a) (us ^^^ b)

/-- `Bucket<Val_t>` as the lookups read it: our key, and the keys of the nodes in the order of
the map. -/
structure Bucket where
  us : Key
  nodes : List Key
  sorted : nodes.Pairwise fun a b => xorMetric us a b = true

/-- One turn of the loops of `FindClosest` and `FindCloseExcluding` over `(mindist, result)`: a
key that `exclude` does not hold replaces the best so far when it is strictly nearer the target.
`exclude.count` on a `std::set` under a strict total order is membership. -/
def closerStep (target : Key) (exclude : List Key) (acc : Key × Key) (k : Key) : Key × Key :=
  if exclude.contains k then acc
  else
    let curDist := k ^^^ target
    if Key.lt curDist acc.1 then (curDist, k) else acc

namespace Bucket

/-- `FindClosest`: the scan from the all-ones distance, and `true` whenever there are nodes. -/
def findClosest (b : Bucket) (target result : Key) : Bool × Key :=
  let r := b.nodes.foldl (closerStep target []) (Key.allOnes, result)
  (decide (b.nodes.length > 0), r.2)

/-- `FindCloseExcluding`: the scan from the all-ones distance, and `true` when the least
distance found is below it. -/
def findCloseExcluding (b : Bucket) (target result : Key) (exclude : List Key) : Bool × Key :=
  let r := b.nodes.foldl (closerStep target exclude) (Key.allOnes, result)
  (Key.lt r.1 Key.allOnes, r.2)

/-- The `while (N--)` loop of `GetManyNearExcluding` over the excluded set `s`, the key `peer`
and the set `result`: each key found is excluded from the next turn and added to `result`. -/
def getManyNearExcludingLoop (b : Bucket) (target : Key) :
    Nat → List Key → Key → List Key → Bool × List Key
  | 0, _, _, result => (true, result)
  | n + 1, s, peer, result =>
    let r := b.findCloseExcluding target peer s
    if r.1 then
      getManyNearExcludingLoop b target n (StdSet.emplace Key.lt s r.2).1 r.2
        (StdSet.emplace Key.lt result r.2).1
    else (false, result)

/-- `GetManyNearExcluding`: whether `N` keys were found, and `result` with those found added. -/
def getManyNearExcluding (b : Bucket) (target : Key) (result : List Key) (N : Nat)
    (exclude : List Key) : Bool × List Key :=
  getManyNearExcludingLoop b target N (StdSet.ofList Key.lt exclude) (AlignedBuffer.zero 32) result

end Bucket

/-- `Context::HandleExploritoryRouterLookup`: the routers of the `GotRouterMessage` it replies
with, or `none` when it returns `false`. The bucket is `_nodes`, absent before `Init`; the
target is the key of the router looked up. -/
def handleExploritoryRouterLookup (ourKey : Key) (nodes : Option Bucket)
    (isBadForConnect : Key → Bool) (requester target : Key) : Option (List Key) :=
  match nodes with
  | none => none
  | some b =>
    let nodeCount := b.nodes.length
    if nodeCount = 0 then none
    else
      let r := b.getManyNearExcluding target [] (min nodeCount 4)
        (StdSet.ofList Key.lt [ourKey, requester])
      -- the routers found, in the order of the set, less those bad for connecting
      if r.1 then some (r.2.filter fun f => !isBadForConnect f) else none

end Lokinet.Dht
