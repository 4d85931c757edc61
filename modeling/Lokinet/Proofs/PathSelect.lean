import Lokinet.Path.Select
import Lokinet.Proofs.PathBuild

/-!
What the hops a `Builder` picks satisfy. The hops between the first and the last are drawn
under a filter that keeps them apart from each other, from the hops before them and from the
endpoint, outside the exclusion set, and in networks of their own. The first hop is a peer
`SelectFirstHop` vetted, the last the endpoint's contact.

The first hop is never compared with the endpoint: when the endpoint is the first hop the
path holds one router twice, and a path of one hop is the first hop alone, wherever the
endpoint is.
-/

namespace Lokinet.Path

open Lokinet.Util Lokinet.Router Lokinet.Net

/-- What `SelectFirstHop` checked of the contact it picked. -/
structure FirstHop (ctx : BuildContext) (exclude : List RouterID) (rc : RouterContact) : Prop where
  session : ∃ s ∈ ctx.peers, s.established = true ∧ s.outbound = true ∧ s.remoteRC = rc
  notBootstrap : ctx.isBootstrapNode rc.pubkey = false
  notExcluded : rc.pubkey ∉ exclude
  notLimited : ctx.buildCooldownHit rc.pubkey = false
  goodForPath : ctx.isBadForPath rc.pubkey profilingChances = false

section Acceptable

/-- The network of an address under `netmask`. -/
def network (netmask : BitVec 128) (addr : AddressInfo) : BitVec 128 := in6ToHUInt addr.ip &&& netmask

theorem acceptableLoop_eq_true_iff (netmask : BitVec 128) : ∀ (seen : List (BitVec 128)) (addrs : List AddressInfo),
    acceptableLoop netmask seen addrs = true ↔
      (addrs.map (network netmask)).Nodup ∧ ∀ a ∈ addrs, network netmask a ∉ seen
  | _, [] => by simp [acceptableLoop]
  | seen, addr :: addrs => by
    show (if network netmask addr ∈ seen then false
      else acceptableLoop netmask (network netmask addr :: seen) addrs) = true ↔ _
    by_cases hseen : network netmask addr ∈ seen
    · rw [if_pos hseen]
      simp only [Bool.false_eq_true, false_iff, not_and]
      exact fun _ hall => hall addr List.mem_cons_self hseen
    · rw [if_neg hseen, acceptableLoop_eq_true_iff netmask _ addrs, List.map_cons, List.nodup_cons]
      constructor
      · rintro ⟨hnd, hnew⟩
        refine ⟨⟨fun hm => ?_, hnd⟩, fun a ha => ?_⟩
        · obtain ⟨a, ha, heq⟩ := List.mem_map.mp hm
          exact hnew a ha (heq ▸ List.mem_cons_self)
        · rcases List.mem_cons.mp ha with rfl | ha
          · exact hseen
          · exact fun h => hnew a ha (List.mem_cons_of_mem _ h)
      · rintro ⟨⟨hnot, hnd⟩, hall⟩
        refine ⟨hnd, fun a ha hmem => ?_⟩
        rcases List.mem_cons.mp hmem with heq | hmem
        · exact hnot (List.mem_map.mpr ⟨a, ha, heq⟩)
        · exact hall a (List.mem_cons_of_mem _ ha) hmem

/-- `Acceptable` holds exactly when no two addresses of the hops share a network. -/
theorem acceptable_eq_true_iff (n : Nat) (rcs : List RouterContact) :
    acceptable n rcs = true ↔ n = 0 ∨ ((rcs.flatMap fun hop => hop.addrs).map (network (netmaskIpv6Bits (96 + n)))).Nodup := by
  unfold acceptable
  by_cases hn : n = 0
  · simp [hn]
  · simp [hn, acceptableLoop_eq_true_iff]

/-- `Acceptable` looks at the set of hops, not at the order the set iterates in. -/
theorem acceptable_perm (n : Nat) {rcs rcs' : List RouterContact} (h : rcs.Perm rcs') :
    acceptable n rcs = acceptable n rcs' := by
  have hnet := ((h.flatMap_right fun hop => hop.addrs).map (network (netmaskIpv6Bits (96 + n)))).nodup_iff
  rw [Bool.eq_iff_iff, acceptable_eq_true_iff, acceptable_eq_true_iff, hnet]

end Acceptable

section HopsSet

theorem insertHop_of_new {hops : List RouterContact} {rc : RouterContact} (h : rc.pubkey ∉ hops.map (·.pubkey)) :
    insertHop hops rc = hops ++ [rc] := by
  have hany : hops.any (fun hop => hop.pubkey == rc.pubkey) = false := by
    simpa [List.any_eq_false] using fun hop hm heq => h (List.mem_map.mpr ⟨hop, hm, heq⟩)
  simp [insertHop, hany]

/-- Hops with distinct `pubkey`s fill a `std::set` one each. -/
theorem foldl_insertHop : ∀ (acc hops : List RouterContact), ((acc ++ hops).map (·.pubkey)).Nodup →
    hops.foldl insertHop acc = acc ++ hops
  | acc, [], _ => by simp
  | acc, hop :: hops, hnd => by
    have hnew : hop.pubkey ∉ acc.map (·.pubkey) := by
      rw [List.map_append, List.map_cons, List.nodup_middle, List.nodup_cons, List.mem_append] at hnd
      exact fun h => hnd.1 (.inl h)
    rw [List.foldl_cons, insertHop_of_new hnew, foldl_insertHop (acc ++ [hop]) hops (by simpa using hnd),
      List.append_assoc, List.singleton_append]

end HopsSet

namespace BuildContext

variable (ctx : BuildContext)

section FirstHopSpec

variable {ctx} {exclude : List RouterID}

theorem visitPeer_of_isSome {found : Option RouterContact} (h : found.isSome) (s : PeerSession) :
    ctx.visitPeer exclude found s = found := by
  cases found with
  | none => simp at h
  | some rc => simp [visitPeer]

theorem visitPeer_none {s : PeerSession} {rc : RouterContact} (h : ctx.visitPeer exclude none s = some rc) :
    s.established = true ∧ s.outbound = true ∧ s.remoteRC = rc ∧ ctx.isBootstrapNode rc.pubkey = false ∧
      rc.pubkey ∉ exclude ∧ ctx.buildCooldownHit rc.pubkey = false ∧
      ctx.isBadForPath rc.pubkey profilingChances = false := by
  unfold visitPeer at h
  split_ifs at h with hs
  dsimp only at h
  split_ifs at h with hbad
  obtain rfl := Option.some.inj h
  simp only [Bool.and_eq_true, Option.isNone_none, and_true] at hs
  simp only [Bool.or_eq_true, not_or, Bool.not_eq_true] at hbad
  obtain ⟨⟨⟨hb, hx⟩, hl⟩, hp⟩ := hbad
  exact ⟨hs.1, hs.2, rfl, hb, by simpa using hx, hl, hp⟩

theorem foldl_visitPeer_some (rc : RouterContact) :
    ∀ ps : List PeerSession, ps.foldl (ctx.visitPeer exclude) (some rc) = some rc
  | [] => rfl
  | s :: ps => by rw [List.foldl_cons, visitPeer_of_isSome rfl, foldl_visitPeer_some rc ps]

/-- Once a contact is found the visitor keeps it, so the pick is one the visitor took on its own. -/
theorem foldl_visitPeer : ∀ (ps : List PeerSession) (found : Option RouterContact) {rc : RouterContact},
    ps.foldl (ctx.visitPeer exclude) found = some rc →
      found = some rc ∨ ∃ s ∈ ps, ctx.visitPeer exclude none s = some rc
  | [], _, _, h => .inl h
  | s :: ps, found, rc, h => by
    cases found with
    | some rc' =>
      rw [foldl_visitPeer_some] at h
      exact .inl h
    | none =>
      rw [List.foldl_cons] at h
      rcases foldl_visitPeer ps _ h with h' | ⟨t, ht, h'⟩
      · exact .inr ⟨s, List.mem_cons_self, h'⟩
      · exact .inr ⟨t, List.mem_cons_of_mem s ht, h'⟩

theorem selectFirstHop_spec {rc : RouterContact} (h : ctx.selectFirstHop exclude = some rc) :
    FirstHop ctx exclude rc := by
  rcases foldl_visitPeer ctx.peers none h with h | ⟨s, hs, hv⟩
  · cases h
  · obtain ⟨he, ho, hrc, hb, hx, hl, hp⟩ := visitPeer_none hv
    exact ⟨⟨s, hs, he, ho, hrc⟩, hb, hx, hl, hp⟩

end FirstHopSpec

/-- The hops picked so far, before the endpoint: routers distinct from each other and from the
endpoint, those after the first not excluded, and, from two hops on, in networks of their own
together with the endpoint. -/
structure Picked (endpointRC : RouterContact) (exclude : List RouterID) (hops : List RouterContact) : Prop where
  nodup : ((endpointRC :: hops).map (·.pubkey)).Nodup
  notExcluded : ∀ hop ∈ hops.tail, hop.pubkey ∉ exclude
  acceptable : 2 ≤ hops.length → acceptable ctx.uniqueHopsNetmaskSize (endpointRC :: hops) = true

section Loop

variable {ctx} {endpointRC : RouterContact} {exclude : List RouterID}

theorem picked_first (first : RouterContact) (hfirst : first.pubkey ≠ endpointRC.pubkey) :
    ctx.Picked endpointRC exclude [first] :=
  ⟨by simpa using hfirst.symm, by simp, by simp⟩

/-- A hop that passes the filter keeps the picked hops distinct, outside the exclusion set and
in networks of their own. -/
theorem Picked.middle {hops : List RouterContact} (hp : ctx.Picked endpointRC exclude hops) (hne : hops ≠ [])
    {rc : RouterContact} (hf : ctx.middleHopFilter endpointRC exclude hops rc = true) :
    ctx.Picked endpointRC exclude (hops ++ [rc]) := by
  have hset : hops.foldl insertHop (insertHop [] endpointRC) = endpointRC :: hops := by
    rw [insertHop_of_new (by simp)]
    exact foldl_insertHop [endpointRC] hops hp.nodup
  unfold middleHopFilter at hf
  simp only [hset] at hf
  split_ifs at hf with hx hbad hdup hacc
  have hnew : rc.pubkey ∉ (endpointRC :: hops).map (·.pubkey) := by
    simp only [List.any_eq_true, beq_iff_eq, not_exists, not_and] at hdup
    intro hm
    obtain ⟨hop, hmem, heq⟩ := List.mem_map.mp hm
    exact hdup hop hmem heq
  rw [insertHop_of_new hnew] at hacc
  refine ⟨?_, ?_, fun _ => ?_⟩
  · rw [← List.cons_append, List.map_append, List.nodup_append]
    exact ⟨hp.nodup, List.nodup_singleton _, fun a ha b hb heq => hnew (by simp_all)⟩
  · rw [List.tail_append_of_ne_nil hne]
    intro hop hmem
    rcases List.mem_append.mp hmem with hmem | hmem
    · exact hp.notExcluded hop hmem
    · rw [List.mem_singleton.mp hmem]
      simpa using hx
  · simpa using hacc

/-- The loop appends the hops it draws and then the endpoint, keeping the picked hops `Picked`. -/
theorem alignedHops_spec (numHops : Nat) (shuffles : Nat → ctx.nodedb.Shuffle) (hops : List RouterContact)
    (idx : Nat) (hp : ctx.Picked endpointRC exclude hops) (hlen : hops.length = idx) (hne : hops ≠ [])
    (hidx : idx < numHops) {h : List RouterContact}
    (hres : ctx.alignedHops numHops shuffles endpointRC exclude hops idx = some h) :
    ∃ mids, h = hops ++ mids ++ [endpointRC] ∧ ctx.Picked endpointRC exclude (hops ++ mids) ∧
      (hops ++ mids).length + 1 = numHops := by
  fun_induction ctx.alignedHops numHops shuffles endpointRC exclude hops idx with
  | case1 hops idx hlt hlast ih =>
    rw [BuildContext.alignedHops, if_neg (by omega)] at hres
    obtain rfl := Option.some.inj hres
    exact ⟨[], by simp, by simpa using hp, by simp; omega⟩
  | case2 hops idx hlt hlast rc hpick ih =>
    have hf := List.find?_some hpick
    obtain ⟨mids, rfl, hp', hlen'⟩ := ih (hp.middle hne hf) (by simp; omega) (by simp) (by omega) hres
    exact ⟨rc :: mids, by simp, by simpa using hp', by simpa using hlen'⟩
  | case3 hops idx hlt hlast hpick => cases hres
  | case4 hops idx hge => omega


end Loop


section Aligned

variable {ctx}

theorem getHopsAlignedToForBuild_wellFormed (numHops : Nat) (shuffles : Nat → ctx.nodedb.Shuffle)
    (endpoint : RouterID) (exclude : List RouterID) {h : List RouterContact} (hnum : 2 ≤ numHops)
    (hfirst : ∀ rc, ctx.selectFirstHop exclude = some rc → rc.pubkey ≠ endpoint)
    (hres : ctx.getHopsAlignedToForBuild numHops shuffles endpoint exclude = some h) :
    h.length = numHops ∧ h.getLast?.map (·.pubkey) = some endpoint ∧ (h.map (·.pubkey)).Nodup ∧
      (∃ first, h.head? = some first ∧ FirstHop ctx exclude first) ∧
      (∀ hop ∈ h.dropLast, hop.pubkey ∉ exclude) ∧
      (3 ≤ numHops → acceptable ctx.uniqueHopsNetmaskSize h = true) := by
  unfold getHopsAlignedToForBuild at hres
  cases hsel : ctx.selectFirstHop exclude with
  | none => simp [hsel] at hres
  | some first =>
    cases hget : ctx.nodedb.get endpoint with
    | none => simp [hsel, hget] at hres
    | some endpointRC =>
      simp only [hsel, hget] at hres
      have hkey : endpointRC.pubkey = endpoint := ctx.nodedb.keyed endpoint endpointRC hget
      have hfs := selectFirstHop_spec hsel
      obtain ⟨mids, rfl, hp, hlen⟩ := alignedHops_spec numHops shuffles [first] 1
        (picked_first first (hkey ▸ hfirst first hsel)) rfl (by simp) (by omega) hres
      rw [List.singleton_append] at hp hlen ⊢
      have hperm : (first :: mids ++ [endpointRC]).Perm (endpointRC :: first :: mids) :=
        List.perm_append_singleton _ _
      refine ⟨by simp at hlen ⊢; omega, by rw [List.getLast?_concat, Option.map_some, hkey], ?_, ⟨first, rfl, hfs⟩,
        ?_, fun h3 => ?_⟩
      · exact (hperm.map _).nodup_iff.mpr hp.nodup
      · intro hop hmem
        rw [List.dropLast_concat] at hmem
        rcases List.mem_cons.mp hmem with rfl | hmem
        · exact hfs.notExcluded
        · exact hp.notExcluded hop hmem
      · rw [acceptable_perm _ hperm]
        exact hp.acceptable (by simp at hlen ⊢; omega)

end Aligned


end BuildContext

section Runs

/-- The entries in the order the `NodeDB` holds them. -/
def NodeDB.unshuffled (db : NodeDB) : db.Shuffle := ⟨db.entries.entries.map Prod.snd, List.Perm.refl _⟩

/-- A router whose one session is an established outbound one to `peer`, with the contacts `db`
in its `NodeDB` and no router bad, limited or a bootstrap node. -/
def onePeerContext (peer : RouterContact) (db : List RouterContact) : BuildContext :=
  ⟨[⟨true, true, peer⟩], fun _ => false, fun _ => false, fun _ _ => false, db.foldl NodeDB.put NodeDB.empty, 0⟩

/-- Routers `1`, `2` and `3` in the `NodeDB`, one session, to `2`. -/
def threeRouterContext : BuildContext := onePeerContext (routerOf 2) [routerOf 1, routerOf 2, routerOf 3]

def threeHopPath : List RouterContact := [routerOf 2, routerOf 3, routerOf 1]

theorem getHopsAlignedToForBuild_wellFormed_three :
    2 ≤ 3 ∧ (∀ rc, threeRouterContext.selectFirstHop [] = some rc → rc.pubkey ≠ (routerOf 1).pubkey) ∧
      threeRouterContext.getHopsAlignedToForBuild 3 (fun _ => NodeDB.unshuffled _) (routerOf 1).pubkey [] =
        some threeHopPath ∧
      (threeHopPath.length = 3 ∧ threeHopPath.getLast?.map (·.pubkey) = some (routerOf 1).pubkey ∧
        (threeHopPath.map (·.pubkey)).Nodup ∧
        (∃ first, threeHopPath.head? = some first ∧ FirstHop threeRouterContext [] first) ∧
        (∀ hop ∈ threeHopPath.dropLast, hop.pubkey ∉ ([] : List RouterID)) ∧
        (3 ≤ 3 → acceptable threeRouterContext.uniqueHopsNetmaskSize threeHopPath = true)) := by
  have hsel : threeRouterContext.selectFirstHop [] = some (routerOf 2) := by decide
  have hfirst : ∀ rc, threeRouterContext.selectFirstHop [] = some rc → rc.pubkey ≠ (routerOf 1).pubkey := by
    intro rc h
    rw [hsel] at h
    cases h
    decide
  have hres : threeRouterContext.getHopsAlignedToForBuild 3 (fun _ => NodeDB.unshuffled _) (routerOf 1).pubkey [] =
      some threeHopPath := by decide +kernel
  exact ⟨by decide, hfirst, hres,
    BuildContext.getHopsAlignedToForBuild_wellFormed 3 _ _ [] (by decide) hfirst hres⟩


/-- With the endpoint as the router's peer, a path of two hops is the endpoint twice, whether the
endpoint is asked for or `GetHopsForBuild` draws it; a path of one hop is the peer alone, though
the endpoint asked for is another router. -/
theorem getHopsAlignedToForBuild_repeats_endpoint :
    (onePeerContext (routerOf 1) [routerOf 1]).getHopsAlignedToForBuild 2
        (fun _ => NodeDB.unshuffled _) (routerOf 1).pubkey [] = some [routerOf 1, routerOf 1] ∧
      (onePeerContext (routerOf 1) [routerOf 1]).getHopsForBuild 2 (NodeDB.unshuffled _)
        (fun _ => NodeDB.unshuffled _) = some [routerOf 1, routerOf 1] ∧
      (onePeerContext (routerOf 2) [routerOf 1]).getHopsAlignedToForBuild 1
        (fun _ => NodeDB.unshuffled _) (routerOf 1).pubkey [] = some [routerOf 2] := by
  decide +kernel

end Runs


end Lokinet.Path
