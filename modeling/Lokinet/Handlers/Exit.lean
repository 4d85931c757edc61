import Lokinet.Handlers.Tun

/-!
Address allocation of the exit endpoint (llarp/handlers/exit.cpp): the IPs of the exit's range
stand for the public keys of its clients through `m_KeyToIP` and `m_IPToKey`.
`AllocateNewAddress` hands out the IPs after the interface's own one in turn, and once the range
is used up takes the IP with the least recent activity and kicks its owner off the exit.

The maps are `AssocMap`s as in `TunEndpoint`. Of `AllocateNewExit`, the path context's answers
are arguments; the sessions and exit endpoints it creates, `m_SNodeKeys` and `m_Paths` are left
out, as nothing of the allocation reads them.
-/

namespace Lokinet.Handlers

open Lokinet.Util Lokinet.Net

structure ExitEndpoint where
  ourRange : IPRange
  ifAddr : BitVec 128
  higestAddr : BitVec 128
  nextAddr : BitVec 128
  /-- `m_Router->pubkey()`. -/
  us : AlignedBuffer 32
  permitExit : Bool
  keyToIP : AssocMap (AlignedBuffer 32) (BitVec 128)
  ipToKey : AssocMap (BitVec 128) (AlignedBuffer 32)
  ipActivity : AssocMap (BitVec 128) Nat

namespace ExitEndpoint

/-- The endpoint as `Configure` leaves it for the range `ourRange`. -/
def configure (ourRange : IPRange) (us : AlignedBuffer 32) (permitExit : Bool) : ExitEndpoint :=
  ⟨ourRange, ourRange.addr, ourRange.highestAddr, ourRange.addr, us, permitExit, ∅, ∅, ∅⟩

/-- `Start`, as far as the maps go: our interface's IP stands for our key, active for ever. -/
def start (t : ExitEndpoint) : ExitEndpoint :=
  { t with keyToIP := t.keyToIP.insert t.us t.ifAddr, ipToKey := t.ipToKey.insert t.ifAddr t.us,
           ipActivity := t.ipActivity.insert t.ifAddr timeMax }

def hasLocalMappedAddrFor (t : ExitEndpoint) (pk : AlignedBuffer 32) : Bool := t.keyToIP.contains pk

/-- `KickIdentOffExit`: `m_KeyToIP[pk]` inserts `pk` with IP `::` when it is not there, before
the erasures. -/
def kickIdentOffExit (t : ExitEndpoint) (pk : AlignedBuffer 32) : ExitEndpoint :=
  let (ip, keyToIP) := t.keyToIP.index pk 0
  { t with keyToIP := keyToIP.erase pk, ipToKey := t.ipToKey.erase ip }

def markIPActive (t : ExitEndpoint) (ip : BitVec 128) (now : Nat) : ExitEndpoint :=
  { t with ipActivity := t.ipActivity.insert ip now }

/-- The scan of a full range for the entry of least activity, from `timeMax` down, the first of
equals kept. -/
def leastActive (ipActivity : AssocMap (BitVec 128) Nat) : BitVec 128 × Nat :=
  ipActivity.entries.foldl (fun min e => if e.2 < min.2 then e else min) (0, timeMax)

/-- `AllocateNewAddress`: on a full range, `m_IPToKey[found]` inserts the zero key for an IP
that has none before its owner is kicked. -/
def allocateNewAddress (t : ExitEndpoint) : BitVec 128 × ExitEndpoint :=
  if t.nextAddr < t.higestAddr then (t.nextAddr + 1, { t with nextAddr := t.nextAddr + 1 })
  else
    let found := (leastActive t.ipActivity).1
    let (pk, ipToKey) := t.ipToKey.index found (AlignedBuffer.zero 32)
    (found, { t with ipToKey := ipToKey }.kickIdentOffExit pk)

/-- `GetIPForIdent`: a failed `emplace` returns the IP without marking it active. -/
def getIPForIdent (t : ExitEndpoint) (pk : AlignedBuffer 32) (now : Nat) :
    BitVec 128 × ExitEndpoint :=
  match t.keyToIP.find? pk with
  | some ip => (ip, t.markIPActive ip now)
  | none =>
    let (found, t) := t.allocateNewAddress
    let (keyToIP, ok) := t.keyToIP.emplace pk found
    let t := { t with keyToIP := keyToIP }
    if !ok then (found, t)
    else
      let (ipToKey, ok) := t.ipToKey.emplace found pk
      let t := { t with ipToKey := ipToKey }
      if !ok then (found, t) else (found, t.markIPActive found now)

def obtainServiceNodeIP (t : ExitEndpoint) (other : AlignedBuffer 32) (now : Nat) :
    BitVec 128 × ExitEndpoint :=
  if other = t.us then (t.ifAddr, t) else t.getIPForIdent other now

/-- `AllocateNewExit`; `hasHandler` is whether the path context knows the path. -/
def allocateNewExit (t : ExitEndpoint) (pk : AlignedBuffer 32) (wantInternet hasHandler : Bool)
    (now : Nat) : Bool × ExitEndpoint :=
  if wantInternet && !t.permitExit then (false, t)
  else if !hasHandler then (false, t)
  else
    let t := (t.getIPForIdent pk now).2
    (t.hasLocalMappedAddrFor pk, t)

/-- The calls that change the maps, each with the clock's value where it reads one. -/
inductive Op where
  | getIPForIdent (pk : AlignedBuffer 32) (now : Nat)
  | allocateNewExit (pk : AlignedBuffer 32) (wantInternet hasHandler : Bool) (now : Nat)
  | obtainServiceNodeIP (other : AlignedBuffer 32) (now : Nat)
  | markIPActive (ip : BitVec 128) (now : Nat)
  | kickIdentOffExit (pk : AlignedBuffer 32)

def step (t : ExitEndpoint) : Op → ExitEndpoint
  | .getIPForIdent pk now => (t.getIPForIdent pk now).2
  | .allocateNewExit pk wantInternet hasHandler now =>
    (t.allocateNewExit pk wantInternet hasHandler now).2
  | .obtainServiceNodeIP other now => (t.obtainServiceNodeIP other now).2
  | .markIPActive ip now => t.markIPActive ip now
  | .kickIdentOffExit pk => t.kickIdentOffExit pk

def run (t : ExitEndpoint) (ops : List Op) : ExitEndpoint := ops.foldl step t

end ExitEndpoint

end Lokinet.Handlers
