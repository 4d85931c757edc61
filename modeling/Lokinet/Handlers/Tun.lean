import Lokinet.Lib.AssocMap
import Lokinet.Net.IPRange

/-!
Address allocation of the TUN endpoint (llarp/handlers/tun.cpp): the IPs of the interface's
range stand for remotes, service addresses or routers, through the maps `m_IPToAddr` and
`m_AddrToIP`. `ObtainIPForAddr` hands out the IPs after the interface's own one in turn, and
once the range is used up takes an IP of `m_IPActivity` by a scan that compares each entry's age
with the time, not the age, of the entry kept so far.

The `std::unordered_map`s are `AssocMap`s, iterated in insertion order; the IP the scan takes
depends on that order. `llarp_time_t` values are the clock's milliseconds as a `Nat`.
`MarkAddressOutbound` and the logging are left out.
-/

namespace Lokinet.Handlers

open Lokinet.Util Lokinet.Net

/-- `std::variant<service::Address, RouterID>`. -/
inductive Remote where
  | address (a : AlignedBuffer 32)
  | router (r : AlignedBuffer 32)
  deriving DecidableEq

namespace Remote

def data : Remote → AlignedBuffer 32
  | .address a => a
  | .router r => r

def isRouter : Remote → Bool
  | .address _ => false
  | .router _ => true

end Remote

/-- `std::numeric_limits<llarp_time_t>::max()`. -/
def timeMax : Nat := 2 ^ 63 - 1

structure TunEndpoint where
  ourRange : IPRange
  ourIP : BitVec 128
  nextIP : BitVec 128
  maxIP : BitVec 128
  ipToAddr : AssocMap (BitVec 128) (AlignedBuffer 32)
  addrToIP : AssocMap (AlignedBuffer 32) (BitVec 128)
  sNodes : AssocMap (AlignedBuffer 32) Bool
  ipActivity : AssocMap (BitVec 128) Nat

namespace TunEndpoint

/-- The endpoint as `Configure` leaves it for the range `ourRange`: its own IP is the range's
address. -/
def configure (ourRange : IPRange) : TunEndpoint := ⟨ourRange, ourRange.addr, 0, 0, ∅, ∅, ∅, ∅⟩

def markIPActive (t : TunEndpoint) (ip : BitVec 128) (now : Nat) : TunEndpoint :=
  { t with ipActivity := t.ipActivity.insert ip (max now ((t.ipActivity.find? ip).getD 0)) }

def markIPActiveForever (t : TunEndpoint) (ip : BitVec 128) : TunEndpoint :=
  { t with ipActivity := t.ipActivity.insert ip timeMax }

/-- The assignments that map `ip` and `ident` to each other, made alike by `MapAddress`, by
`ObtainIPForAddr` and by its recycling. -/
def assign (t : TunEndpoint) (ip : BitVec 128) (ident : AlignedBuffer 32) (snode : Bool) :
    TunEndpoint :=
  { t with ipToAddr := t.ipToAddr.insert ip ident, addrToIP := t.addrToIP.insert ident ip,
           sNodes := t.sNodes.insert ident snode }

/-- `MapAddress`: refused when `ip` stands for a remote already. -/
def mapAddress (t : TunEndpoint) (addr : AlignedBuffer 32) (ip : BitVec 128) (sNode : Bool) :
    Bool × TunEndpoint :=
  if t.ipToAddr.contains ip then (false, t)
  else (true, (t.assign ip addr sNode).markIPActiveForever ip)

/-- `SetupTun`, as far as the maps go: allocation starts at our IP and stops at the range's
highest address, and our IP stands for our own address. -/
def setupTun (t : TunEndpoint) (ourAddr : AlignedBuffer 32) : Bool × TunEndpoint :=
  { t with nextIP := t.ourIP, maxIP := t.ourRange.highestAddr }.mapAddress ourAddr t.ourIP false

/-- The `do … while` of `ObtainIPForAddr`: `m_NextIP` steps past the mapped IPs and stops at
`m_MaxIP`. It steps at most `fuel` times; `ObtainIPForAddr` gives it `m_MaxIP - m_NextIP`,
and each step that goes on leaves the rest positive. -/
def advance (ipToAddr : AssocMap (BitVec 128) (AlignedBuffer 32)) (maxIP : BitVec 128) :
    Nat → BitVec 128 → BitVec 128
  | 0, nextIP => nextIP
  | fuel + 1, nextIP =>
    if ipToAddr.contains (nextIP + 1) && decide (nextIP + 1 < maxIP) then
      advance ipToAddr maxIP fuel (nextIP + 1)
    else nextIP + 1

/-- The scan of a full range for the oldest entry: an entry replaces the candidate when its age
exceeds the candidate's second component, which holds the candidate's time, not its age. -/
def oldestEntry (ipActivity : AssocMap (BitVec 128) Nat) (now : Nat) : BitVec 128 × Nat :=
  ipActivity.entries.foldl
    (fun oldest e => if e.2 ≤ now ∧ now - e.2 > oldest.2 then e else oldest) (0, 0)

/-- The end of `ObtainIPForAddr` on a full range: the IP found is remapped to `ident`. Its
former remote keeps its entry in `m_AddrToIP`. -/
def recycle (t : TunEndpoint) (ident : AlignedBuffer 32) (snode : Bool) (now : Nat) :
    BitVec 128 × TunEndpoint :=
  let ip := (oldestEntry t.ipActivity now).1
  -- `m_IPActivity[nextIP] = std::max(m_IPActivity[nextIP], now)`, which is `MarkIPActive`
  (ip, (t.assign ip ident snode).markIPActive ip now)

def obtainIPForAddr (t : TunEndpoint) (addr : Remote) (now : Nat) : BitVec 128 × TunEndpoint :=
  let ident := addr.data
  let snode := addr.isRouter
  match t.addrToIP.find? ident with
  | some ip => (ip, t.markIPActive ip now)
  | none =>
    if t.nextIP < t.maxIP then
      let nextIP := advance t.ipToAddr t.maxIP (t.maxIP - t.nextIP).toNat t.nextIP
      let t := { t with nextIP := nextIP }
      if nextIP < t.maxIP then (nextIP, (t.assign nextIP ident snode).markIPActive nextIP now)
      else t.recycle ident snode now
    else t.recycle ident snode now

/-- `HasRemoteForIP`. -/
def hasRemoteForIP (t : TunEndpoint) (ip : BitVec 128) : Bool := t.ipToAddr.contains ip

/-- The calls that change the maps, each with the clock's value where it reads one. -/
inductive Op where
  | mapAddress (addr : AlignedBuffer 32) (ip : BitVec 128) (sNode : Bool)
  | obtainIPForAddr (addr : Remote) (now : Nat)
  | markIPActive (ip : BitVec 128) (now : Nat)

def step (t : TunEndpoint) : Op → TunEndpoint
  | .mapAddress addr ip sNode => (t.mapAddress addr ip sNode).2
  | .obtainIPForAddr addr now => (t.obtainIPForAddr addr now).2
  | .markIPActive ip now => t.markIPActive ip now

def run (t : TunEndpoint) (ops : List Op) : TunEndpoint := ops.foldl step t

end TunEndpoint

end Lokinet.Handlers
