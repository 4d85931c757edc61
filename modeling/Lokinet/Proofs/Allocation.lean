import Lokinet.Handlers.Exit

/-!
What IP allocation by the TUN endpoint (`ObtainIPForAddr`) and the exit endpoint
(`AllocateNewAddress`) keeps over every run, and where the maps between IPs and remotes drift
apart.
-/

namespace Lokinet.Handlers

open Lokinet.Util Lokinet.Net

/-- A remote's 32 bytes, the first one `b`. -/
def keyOf (b : UInt8) : AlignedBuffer 32 := ⟨b :: List.replicate 31 0, rfl⟩

/-- `::ffff:10.0.0.1/126`, whose highest address is `10.0.0.3`. -/
def tenSlash126 : IPRange := ⟨expandV4 0x0a000001, netmaskIpv6Bits 126⟩

namespace TunEndpoint

section Frame

variable (t : TunEndpoint) (ip : BitVec 128) (now : Nat)

@[simp] theorem markIPActive_ipToAddr : (t.markIPActive ip now).ipToAddr = t.ipToAddr := rfl

@[simp] theorem markIPActive_addrToIP : (t.markIPActive ip now).addrToIP = t.addrToIP := rfl

@[simp] theorem markIPActiveForever_ipToAddr : (t.markIPActiveForever ip).ipToAddr = t.ipToAddr := rfl

@[simp] theorem markIPActiveForever_addrToIP : (t.markIPActiveForever ip).addrToIP = t.addrToIP := rfl

@[simp] theorem assign_ipToAddr (a : AlignedBuffer 32) (s : Bool) :
    (t.assign ip a s).ipToAddr = t.ipToAddr.insert ip a := rfl

@[simp] theorem assign_addrToIP (a : AlignedBuffer 32) (s : Bool) :
    (t.assign ip a s).addrToIP = t.addrToIP.insert a ip := rfl

end Frame

/-- Everything `ObtainIPForAddr` can do: return the IP a remote has and mark it active, or map a
remote that has none to an IP, in a state that differs from `t` at most in `m_NextIP`, and mark
that IP active. -/
theorem obtainIPForAddr_cases (t : TunEndpoint) (addr : Remote) (now : Nat) :
    (∃ ip, t.addrToIP.find? addr.data = some ip ∧
      t.obtainIPForAddr addr now = (ip, t.markIPActive ip now)) ∨
    (t.addrToIP.find? addr.data = none ∧ ∃ (t' : TunEndpoint) (ip : BitVec 128),
      t'.ipToAddr = t.ipToAddr ∧ t'.addrToIP = t.addrToIP ∧
      t.obtainIPForAddr addr now = (ip, (t'.assign ip addr.data addr.isRouter).markIPActive ip now)) := by
  cases h : t.addrToIP.find? addr.data with
  | some ip => exact .inl ⟨ip, rfl, by simp only [TunEndpoint.obtainIPForAddr, h]⟩
  | none =>
    refine .inr ⟨rfl, ?_⟩
    simp only [TunEndpoint.obtainIPForAddr, h]
    set n := advance t.ipToAddr t.maxIP (t.maxIP - t.nextIP).toNat t.nextIP
    split
    · -- the sequential path, which falls back on recycling at `m_MaxIP`
      split
      · exact ⟨{ t with nextIP := n }, n, rfl, rfl, rfl⟩
      · exact ⟨{ t with nextIP := n }, _, rfl, rfl, rfl⟩
    · exact ⟨t, _, rfl, rfl, rfl⟩

/-- Each IP that a remote is mapped to stands for a remote. -/
def Mapped (t : TunEndpoint) : Prop :=
  ∀ a ip, t.addrToIP.find? a = some ip → t.ipToAddr.contains ip = true

theorem mapped_of_maps {t t' : TunEndpoint} (h : t.Mapped) (hi : t'.ipToAddr = t.ipToAddr)
    (ha : t'.addrToIP = t.addrToIP) : t'.Mapped := by
  intro a ip hip
  rw [hi]
  exact h a ip (ha ▸ hip)

theorem Mapped.assign {t : TunEndpoint} (h : t.Mapped) (ip : BitVec 128) (a : AlignedBuffer 32)
    (s : Bool) : (t.assign ip a s).Mapped := by
  intro a' ip' hip
  rw [assign_addrToIP, AssocMap.find?_insert] at hip
  rw [assign_ipToAddr, AssocMap.contains_insert]
  by_cases ha : a' = a
  · simp only [ha, ↓reduceIte, Option.some.injEq] at hip
    simp [hip]
  · simp only [ha, ↓reduceIte] at hip
    simp [h a' ip' hip]

theorem Mapped.obtainIPForAddr {t : TunEndpoint} (h : t.Mapped) (addr : Remote) (now : Nat) :
    (t.obtainIPForAddr addr now).2.Mapped := by
  rcases obtainIPForAddr_cases t addr now with ⟨ip, -, hr⟩ | ⟨-, t', ip, hi, ha, hr⟩
  · rw [hr]
    exact mapped_of_maps h rfl rfl
  · rw [hr]
    exact mapped_of_maps ((mapped_of_maps h hi ha).assign ip addr.data addr.isRouter) rfl rfl

theorem Mapped.mapAddress {t : TunEndpoint} (h : t.Mapped) (addr : AlignedBuffer 32)
    (ip : BitVec 128) (sNode : Bool) : (t.mapAddress addr ip sNode).2.Mapped := by
  unfold TunEndpoint.mapAddress
  split
  · exact h
  · exact mapped_of_maps (h.assign ip addr sNode) rfl rfl

theorem Mapped.step {t : TunEndpoint} (h : t.Mapped) : ∀ op, (t.step op).Mapped
  | .mapAddress addr ip sNode => h.mapAddress addr ip sNode
  | .obtainIPForAddr addr now => h.obtainIPForAddr addr now
  | .markIPActive _ _ => mapped_of_maps h rfl rfl

theorem Mapped.run {t : TunEndpoint} (h : t.Mapped) (ops : List Op) : (t.run ops).Mapped := by
  induction ops generalizing t with
  | nil => exact h
  | cons op ops ih => exact ih (h.step op)

theorem mapped_setupTun (ourRange : IPRange) (ourAddr : AlignedBuffer 32) :
    ((configure ourRange).setupTun ourAddr).2.Mapped := by
  have h0 : (configure ourRange).Mapped := by
    intro a ip hip
    simp [configure] at hip
  exact mapped_of_maps h0 rfl rfl |>.mapAddress ourAddr _ false

/-- The IP `ObtainIPForAddr` returns has a remote, in every run from `SetupTun`. -/
theorem obtainIPForAddr_hasRemoteForIP (ourRange : IPRange) (ourAddr : AlignedBuffer 32)
    (ops : List Op) (addr : Remote) (now : Nat) :
    let t := ((configure ourRange).setupTun ourAddr).2.run ops
    (t.obtainIPForAddr addr now).2.hasRemoteForIP (t.obtainIPForAddr addr now).1 = true := by
  intro t
  have h : t.Mapped := (mapped_setupTun ourRange ourAddr).run ops
  rcases obtainIPForAddr_cases t addr now with ⟨ip, hip, hr⟩ | ⟨-, t', ip, -, -, hr⟩
  · rw [hr]
    exact h addr.data ip hip
  · rw [hr]
    simp [hasRemoteForIP, AssocMap.contains_insert]

/-- Remotes `1` and `2` obtain IPs on `tenSlash126`, at clock 1000 and 2000. -/
def twoRemotesOnSlash126 : TunEndpoint :=
  ((configure tenSlash126).setupTun (keyOf 0)).2.run
    [.obtainIPForAddr (.address (keyOf 1)) 1000, .obtainIPForAddr (.address (keyOf 2)) 2000]

/-- The endpoint on `::ffff:10.0.0.0/127` after `SetupTun`: its range has no IP to hand out. -/
def setUpOnSlash127 : TunEndpoint :=
  ((configure ⟨expandV4 0x0a000000, netmaskIpv6Bits 127⟩).setupTun (keyOf 0)).2

set_option maxRecDepth 8000 in
/-- `tenSlash126` has one IP to hand out: the second remote takes it from the first, which keeps
it in `m_AddrToIP` and is handed it again. The first remote on a `/127` range is handed `::`. -/
theorem obtainIPForAddr_recycle_keeps_stale_owner :
    twoRemotesOnSlash126.addrToIP.find? (keyOf 1) = some (expandV4 0x0a000002) ∧
      twoRemotesOnSlash126.ipToAddr.find? (expandV4 0x0a000002) = some (keyOf 2) ∧
      (twoRemotesOnSlash126.obtainIPForAddr (.address (keyOf 1)) 3000).1 = expandV4 0x0a000002 ∧
      (setUpOnSlash127.obtainIPForAddr (.address (keyOf 1)) 1000).1 = 0 ∧
      setUpOnSlash127.ourRange.contains 0 = false := by
  decide

end TunEndpoint

namespace ExitEndpoint

/-- On `tenSlash126` clients `1` and `2` take `10.0.0.2` and `10.0.0.3`, client `1` is kicked, and
client `3` asks for an IP. -/
def thirdClientOnSlash126 : ExitEndpoint :=
  (configure tenSlash126 (keyOf 0) true).start.run
    [.getIPForIdent (keyOf 1) 1, .getIPForIdent (keyOf 2) 2, .kickIdentOffExit (keyOf 1),
      .getIPForIdent (keyOf 3) 3]

set_option maxRecDepth 8000 in
/-- Client `3` is given `10.0.0.2`, which `m_IPToKey` maps to the zero key; client `4` is given it
too, and two keys map to one IP. -/
theorem getIPForIdent_recycle_maps_zero_key :
    (thirdClientOnSlash126.keyToIP.find? (keyOf 3) = some (expandV4 0x0a000002) ∧
      thirdClientOnSlash126.ipToKey.find? (expandV4 0x0a000002) = some (AlignedBuffer.zero 32)) ∧
    (thirdClientOnSlash126.getIPForIdent (keyOf 4) 4).1 = expandV4 0x0a000002 ∧
      (thirdClientOnSlash126.getIPForIdent (keyOf 4) 4).2.keyToIP.find? (keyOf 3) =
        some (expandV4 0x0a000002) := by
  decide

end ExitEndpoint

end Lokinet.Handlers
