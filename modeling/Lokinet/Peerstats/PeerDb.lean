import Lokinet.Lib.AssocMap
import Lokinet.Util.Aligned

/-!
Per-router statistics (llarp/peerstats/types.hpp, types.cpp) and the two ways `PeerDb`
(llarp/peerstats/peer_db.cpp) changes them, `accumulatePeerStats` and `handleGossipedRC`. The
`int32_t`, `int64_t` and `llarp_time_t` fields are integers with no wrap-around; a result that
needs its inputs to stay within the code's types says so. `peakBandwidthBytesPerSec`, a `double`
that only holds a converted `uint64_t` byte rate, is that rate. Of a `RouterContact` the database
reads its key and `last_updated`.
-/

namespace Lokinet.Peerstats

open Lokinet.Util

/-- `RouterContact::Lifetime`: 24 hours, in milliseconds (one minute in `TESTNET` builds). -/
def rcLifetime : Int := 24 * 60 * 60 * 1000

/-- `PeerStats`. `stale` is not serialized. -/
structure PeerStats where
  routerId : AlignedBuffer 32
  numConnectionAttempts : Int
  numConnectionSuccesses : Int
  numConnectionRejections : Int
  numConnectionTimeouts : Int
  numPathBuilds : Int
  numPacketsAttempted : Int
  numPacketsSent : Int
  numPacketsDropped : Int
  numPacketsResent : Int
  numDistinctRCsReceived : Int
  numLateRCs : Int
  peakBandwidthBytesPerSec : Nat
  longestRCReceiveInterval : Int
  leastRCRemainingLifetime : Int
  lastRCUpdated : Int
  stale : Bool
  deriving DecidableEq

namespace PeerStats

/-- `PeerStats(routerId)`: every count and time zero. -/
def create (routerId : AlignedBuffer 32) : PeerStats :=
  ⟨routerId, 0, 0, 0, 0, 0, 0, 0, 0, 0, 0, 0, 0, 0, 0, 0, true⟩

/-- `operator+=`: counters add, and the peak, the longest interval, the least remaining lifetime
and the last update each keep the larger value. -/
def plusAssign (s other : PeerStats) : PeerStats :=
  { s with
    numConnectionAttempts := s.numConnectionAttempts + other.numConnectionAttempts
    numConnectionSuccesses := s.numConnectionSuccesses + other.numConnectionSuccesses
    numConnectionRejections := s.numConnectionRejections + other.numConnectionRejections
    numConnectionTimeouts := s.numConnectionTimeouts + other.numConnectionTimeouts
    numPathBuilds := s.numPathBuilds + other.numPathBuilds
    numPacketsAttempted := s.numPacketsAttempted + other.numPacketsAttempted
    numPacketsSent := s.numPacketsSent + other.numPacketsSent
    numPacketsDropped := s.numPacketsDropped + other.numPacketsDropped
    numPacketsResent := s.numPacketsResent + other.numPacketsResent
    numDistinctRCsReceived := s.numDistinctRCsReceived + other.numDistinctRCsReceived
    numLateRCs := s.numLateRCs + other.numLateRCs
    peakBandwidthBytesPerSec := max s.peakBandwidthBytesPerSec other.peakBandwidthBytesPerSec
    longestRCReceiveInterval := max s.longestRCReceiveInterval other.longestRCReceiveInterval
    leastRCRemainingLifetime := max s.leastRCRemainingLifetime other.leastRCRemainingLifetime
    lastRCUpdated := max s.lastRCUpdated other.lastRCUpdated }

/-- The body of `handleGossipedRC` on the stats of the contact's router: a contact newer than the
last one counts as distinct, and from the second on the time the previous one had left to live
when this one came, `expiry`, goes into the least remaining lifetime. -/
def gossipedRC (stats : PeerStats) (id : AlignedBuffer 32) (lastUpdated now : Int) : PeerStats :=
  let stats := { stats with routerId := id }
  if stats.lastRCUpdated < lastUpdated then
    let n := stats.numDistinctRCsReceived + 1
    let least :=
      if n > 1 then
        let expiry := stats.lastRCUpdated + rcLifetime - now
        if n = 2 then expiry else min stats.leastRCRemainingLifetime expiry
      else stats.leastRCRemainingLifetime
    { stats with
      numDistinctRCsReceived := n
      leastRCRemainingLifetime := least
      lastRCUpdated := lastUpdated
      stale := true }
  else stats

end PeerStats

/-- `PeerDb`'s `m_peerStats`. -/
structure PeerDb where
  peerStats : AssocMap (AlignedBuffer 32) PeerStats

namespace PeerDb

/-- `accumulatePeerStats(routerId, delta)`: `none` when it throws `std::invalid_argument` for a
delta of another router; otherwise the delta is inserted or added, and marked stale. -/
def accumulatePeerStats (db : PeerDb) (routerId : AlignedBuffer 32) (delta : PeerStats) :
    Option PeerDb :=
  if routerId ≠ delta.routerId then none
  else
    let stats :=
      match db.peerStats.find? routerId with
      | none => delta
      | some s => s.plusAssign delta
    some ⟨db.peerStats.insert routerId { stats with stale := true }⟩

/-- `handleGossipedRC(rc, now)`: `m_peerStats[id]` default-constructs the stats of a router not
seen before. -/
def handleGossipedRC (db : PeerDb) (pubkey : AlignedBuffer 32) (lastUpdated now : Int) : PeerDb :=
  let (stats, m) := db.peerStats.index pubkey (PeerStats.create (AlignedBuffer.zero 32))
  ⟨m.insert pubkey (stats.gossipedRC pubkey lastUpdated now)⟩

end PeerDb

end Lokinet.Peerstats
