import Lokinet.Peerstats.PeerDb

/-!
What the peer statistics mean. Under gossip, the stats of a router count the contacts newer than
every earlier one and than zero, keep the newest `last_updated`, and keep the least of the times
each previous contact had left to live when the next came. `operator+=` merges the counters by
sums and the other fields by maxima, so merging deltas does not depend on their order; but the
least remaining lifetime is merged by its maximum too, which is not the least.
-/

namespace Lokinet.Peerstats

open Lokinet.Util PeerStats

/-! ### The stats of one router under gossip -/

/-- The last update a run of gossiped contacts leaves, from a last update `m`. -/
def lastFrom (m : Int) (es : List (Int × Int)) : Int := es.foldl (fun m e => max m e.1) m

/-- The contacts a run counts as new, from a last update `m`: for each, the last update before it
and the time it came. A contact is new when it is newer than `m` and every earlier contact. -/
def newRCs : Int → List (Int × Int) → List (Int × Int)
  | _, [] => []
  | m, e :: es => if m < e.1 then (m, e.2) :: newRCs e.1 es else newRCs m es

/-- For each new contact after the first, the time the one before it had left to live when it
came: what `handleGossipedRC` takes the least of. -/
def expiries (es : List (Int × Int)) : List Int :=
  (newRCs 0 es).tail.map fun p => p.1 + rcLifetime - p.2

theorem newRCs_snoc (m : Int) (es : List (Int × Int)) (e : Int × Int) :
    newRCs m (es ++ [e]) =
      newRCs m es ++ if lastFrom m es < e.1 then [(lastFrom m es, e.2)] else [] := by
  induction es generalizing m with
  | nil => by_cases h : m < e.1 <;> simp [newRCs, lastFrom, h]
  | cons x es ih =>
    by_cases hx : m < x.1
    · simp [newRCs, lastFrom, hx, ih, max_eq_right hx.le]
      rfl
    · simp [newRCs, lastFrom, hx, ih, max_eq_left (not_lt.mp hx)]
      rfl

theorem lastFrom_snoc (m : Int) (es : List (Int × Int)) (e : Int × Int) :
    lastFrom m (es ++ [e]) = max (lastFrom m es) e.1 := by
  simp [lastFrom, List.foldl_append]

/-- The least element of a list with one more at its end. -/
theorem min?_snoc_getD {l : List Int} (hl : l ≠ []) (x : Int) :
    (l ++ [x]).min?.getD 0 = min (l.min?.getD 0) x := by
  obtain ⟨a, l, rfl⟩ := List.exists_cons_of_ne_nil hl
  rw [List.cons_append, List.min?_cons', List.min?_cons']
  simp [List.foldl_append]

/-- What the stats of a router say about the contacts `es` gossiped for it. -/
structure Summarizes (es : List (Int × Int)) (s : PeerStats) : Prop where
  distinct : s.numDistinctRCsReceived = (newRCs 0 es).length
  last : s.lastRCUpdated = lastFrom 0 es
  least : s.leastRCRemainingLifetime = (expiries es).min?.getD 0

theorem summarizes_create (id : AlignedBuffer 32) : Summarizes [] (create id) :=
  ⟨rfl, rfl, rfl⟩

/-- One gossiped contact keeps the stats a summary of the contacts so far. -/
theorem Summarizes.gossipedRC {es : List (Int × Int)} {s : PeerStats} (h : Summarizes es s)
    (id : AlignedBuffer 32) (e : Int × Int) : Summarizes (es ++ [e]) (s.gossipedRC id e.1 e.2) := by
  obtain ⟨hdist, hlast, hleast⟩ := h
  by_cases hnew : lastFrom 0 es < e.1
  swap
  · -- an old contact changes nothing the summary reads
    have hold : ¬s.lastRCUpdated < e.1 := hlast ▸ hnew
    refine ⟨?_, ?_, ?_⟩ <;>
      simp only [PeerStats.gossipedRC, hold, ↓reduceIte, expiries, newRCs_snoc, hnew, List.append_nil]
    · exact hdist
    · rw [lastFrom_snoc, max_eq_left (not_lt.mp hnew)]
      exact hlast
    · exact hleast
  have hnew' : s.lastRCUpdated < e.1 := hlast ▸ hnew
  have hnrc : newRCs 0 (es ++ [e]) = newRCs 0 es ++ [(lastFrom 0 es, e.2)] := by
    rw [newRCs_snoc, if_pos hnew]
  refine ⟨?_, ?_, ?_⟩ <;> simp only [PeerStats.gossipedRC, hnew', ↓reduceIte]
  · simp [hdist, hnrc]
  · rw [lastFrom_snoc, max_eq_right hnew.le]
  · -- the least remaining lifetime: unchanged for the first contact, set by the second, and
    -- lowered to the new expiry after that
    simp only [expiries, hnrc]
    rcases hrc : newRCs 0 es with _ | ⟨x, xs⟩
    · simp [hdist, hrc, hleast, expiries]
    · rcases xs with _ | ⟨y, ys⟩
      · simp [hdist, hrc, hlast]
      · have hne : ((y :: ys).map fun p => p.1 + rcLifetime - p.2) ≠ [] := by simp
        have hn : s.numDistinctRCsReceived + 1 ≠ 2 := by simp [hdist, hrc]; omega
        have hgt : s.numDistinctRCsReceived + 1 > 1 := by simp [hdist, hrc]; omega
        rw [if_pos hgt, if_neg hn, hleast, hlast]
        simp only [expiries, hrc, List.cons_append, List.tail_cons]
        rw [← List.cons_append, List.map_append, List.map_singleton, min?_snoc_getD hne]

/-- The stats a router not seen before has after the gossiped contacts `es`, each a
`last_updated` and the time it came. -/
def gossipRun (id : AlignedBuffer 32) (es : List (Int × Int)) : PeerStats :=
  es.foldl (fun s e => s.gossipedRC id e.1 e.2) (create (AlignedBuffer.zero 32))

theorem summarizes_gossipRun (id : AlignedBuffer 32) (es : List (Int × Int)) :
    Summarizes es (gossipRun id es) := by
  induction es using List.reverseRecOn with
  | nil => exact summarizes_create _
  | append_singleton es e ih =>
    rw [gossipRun, List.foldl_append, List.foldl_cons, List.foldl_nil]
    exact ih.gossipedRC id e

/-! ### Merging deltas -/

/-- Merging two deltas after a third gives the same stats in either order. -/
theorem plusAssign_right_comm (s x y : PeerStats) :
    (s.plusAssign x).plusAssign y = (s.plusAssign y).plusAssign x := by
  simp only [plusAssign, add_right_comm, max_right_comm]

/-- `operator+=` reads nothing of the stats it adds to but its counts and times. -/
theorem plusAssign_stale (s y : PeerStats) (b : Bool) :
    ({ s with stale := b }).plusAssign y = { s.plusAssign y with stale := b } := rfl

/-- Two deltas of one router, equally stale, merge to the same stats either way round. -/
theorem plusAssign_comm_of {x y : PeerStats} (hid : x.routerId = y.routerId)
    (hst : x.stale = y.stale) : x.plusAssign y = y.plusAssign x := by
  obtain ⟨xid, _, _, _, _, _, _, _, _, _, _, _, _, _, _, _, xst⟩ := x
  obtain ⟨yid, _, _, _, _, _, _, _, _, _, _, _, _, _, _, _, yst⟩ := y
  simp only at hid hst
  subst hid hst
  simp only [plusAssign, add_comm, max_comm]

/-! ### The database -/

namespace PeerDb

/-- The stats of a router not seen before: those `operator[]` default-constructs. -/
def fresh : PeerStats := create (AlignedBuffer.zero 32)

/-- `handleGossipedRC` changes the stats of the contact's router only. -/
theorem find?_handleGossipedRC (db : PeerDb) (pk : AlignedBuffer 32) (lu now : Int)
    (r : AlignedBuffer 32) :
    (db.handleGossipedRC pk lu now).peerStats.find? r =
      if r = pk then some (((db.peerStats.find? pk).getD fresh).gossipedRC pk lu now)
      else db.peerStats.find? r := by
  simp only [handleGossipedRC, AssocMap.find?_insert, AssocMap.index_fst, fresh]
  split_ifs with h
  · rfl
  · exact AssocMap.find?_index_of_ne _ _ h

/-- The database after the gossiped contacts `cs`: each a router's key, its `last_updated` and
the time. -/
def gossipAll (db : PeerDb) (cs : List (AlignedBuffer 32 × Int × Int)) : PeerDb :=
  cs.foldl (fun db c => db.handleGossipedRC c.1 c.2.1 c.2.2) db

/-- The contacts gossiped for router `r` among `cs`, in order. -/
def contactsOf (r : AlignedBuffer 32) (cs : List (AlignedBuffer 32 × Int × Int)) :
    List (Int × Int) :=
  (cs.filter fun c => c.1 = r).map Prod.snd

/-- Whatever other routers' contacts come between them, the stats of a router not seen before are
those of its own contacts alone. -/
theorem gossipAll_find? (db : PeerDb) (cs : List (AlignedBuffer 32 × Int × Int))
    (r : AlignedBuffer 32) (h : db.peerStats.find? r = none) :
    ((db.gossipAll cs).peerStats.find? r).getD fresh = gossipRun r (contactsOf r cs) := by
  induction cs using List.reverseRecOn with
  | nil => simp [gossipAll, contactsOf, h, gossipRun, fresh]
  | append_singleton cs c ih =>
    rw [gossipAll, List.foldl_append, List.foldl_cons, List.foldl_nil, ← gossipAll,
      find?_handleGossipedRC]
    by_cases hc : r = c.1
    · -- a contact of `r`: one more turn of its run
      subst hc
      simp only [↓reduceIte, Option.getD_some, ih, contactsOf, List.filter_append,
        List.filter_cons, decide_true, List.filter_nil, List.map_append, List.map_cons,
        List.map_nil, gossipRun, List.foldl_append, List.foldl_cons, List.foldl_nil]
    · rw [if_neg hc, ih]
      simp [contactsOf, List.filter_append, Ne.symm hc]

/-- The stats `accumulatePeerStats` leaves for a router with stats `o` given a delta `d` of it. -/
def mergeDelta (o : Option PeerStats) (d : PeerStats) : PeerStats :=
  { (o.map fun s => s.plusAssign d).getD d with stale := true }

theorem accumulatePeerStats_of_routerId (db : PeerDb) {r : AlignedBuffer 32} {d : PeerStats}
    (hd : d.routerId = r) :
    db.accumulatePeerStats r d = some ⟨db.peerStats.insert r (mergeDelta (db.peerStats.find? r) d)⟩ := by
  unfold accumulatePeerStats mergeDelta
  rw [if_neg (by simp [hd])]
  cases db.peerStats.find? r <;> rfl

/-- Deltas of one router merge in either order to the same stats. -/
theorem mergeDelta_swap (z : Option PeerStats) {x y : PeerStats} (hid : x.routerId = y.routerId) :
    mergeDelta (some (mergeDelta z x)) y = mergeDelta (some (mergeDelta z y)) x := by
  cases z with
  | none =>
    -- the first delta goes in as it is
    have h := plusAssign_comm_of (x := { x with stale := true }) (y := { y with stale := true }) hid rfl
    simp only [mergeDelta, Option.map_none, Option.getD_none, Option.map_some, Option.getD_some]
    simp only [plusAssign] at h ⊢
    rw [h]
  | some s =>
    simp only [mergeDelta, Option.map_some, Option.getD_some]
    rw [plusAssign_stale, plusAssign_stale, plusAssign_right_comm]
    rfl

/-- `accumulatePeerStats` over the deltas `ds` of router `r`, in order, stopping at the first
that throws. -/
def accumulateAll (db : PeerDb) (r : AlignedBuffer 32) (ds : List PeerStats) : Option PeerDb :=
  ds.foldlM (fun db d => db.accumulatePeerStats r d) db

theorem accumulateAll_find? (db : PeerDb) (r : AlignedBuffer 32) (ds : List PeerStats)
    (hds : ∀ d ∈ ds, d.routerId = r) :
    ∃ db', accumulateAll db r ds = some db' ∧
      db'.peerStats.find? r = ds.foldl (fun o d => some (mergeDelta o d)) (db.peerStats.find? r) ∧
      ∀ k, k ≠ r → db'.peerStats.find? k = db.peerStats.find? k := by
  induction ds generalizing db with
  | nil => exact ⟨db, rfl, rfl, fun _ _ => rfl⟩
  | cons d ds ih =>
    set db₁ : PeerDb := ⟨db.peerStats.insert r (mergeDelta (db.peerStats.find? r) d)⟩
    have hstep : db.accumulatePeerStats r d = some db₁ :=
      accumulatePeerStats_of_routerId db (hds d List.mem_cons_self)
    obtain ⟨db', hrun, hr, hk⟩ := ih db₁ fun d' hd' => hds d' (List.mem_cons_of_mem d hd')
    refine ⟨db', ?_, ?_, fun k hkr => ?_⟩
    · simp only [accumulateAll, List.foldlM_cons, hstep, Option.bind_eq_bind, Option.bind_some]
      exact hrun
    · rw [hr, List.foldl_cons]
      simp [db₁, AssocMap.find?_insert]
    · rw [hk k hkr]
      simp [db₁, AssocMap.find?_insert, hkr]

theorem accumulatePeerStats_order_independent (db : PeerDb) (r : AlignedBuffer 32)
    {ds ds' : List PeerStats} (hp : ds.Perm ds') (hds : ∀ d ∈ ds, d.routerId = r) :
    ∃ db₁ db₂, accumulateAll db r ds = some db₁ ∧ accumulateAll db r ds' = some db₂ ∧
      ∀ k, db₁.peerStats.find? k = db₂.peerStats.find? k := by
  obtain ⟨db₁, h₁, hr₁, hk₁⟩ := accumulateAll_find? db r ds hds
  obtain ⟨db₂, h₂, hr₂, hk₂⟩ := accumulateAll_find? db r ds' fun d hd => hds d (hp.mem_iff.mpr hd)
  refine ⟨db₁, db₂, h₁, h₂, fun k => ?_⟩
  by_cases hk : k = r
  · -- the router's stats: the same deltas merged in another order
    subst hk
    rw [hr₁, hr₂]
    refine hp.foldl_eq' (fun x hx y hy z => ?_) _
    rw [mergeDelta_swap z ((hds x hx).trans (hds y hy).symm)]
  · rw [hk₁ k hk, hk₂ k hk]

theorem accumulatePeerStats_order_independent_swap :
    [gossipRun (AlignedBuffer.zero 32) [(1, 0)], fresh].Perm
        [fresh, gossipRun (AlignedBuffer.zero 32) [(1, 0)]] ∧
      (∀ d ∈ [gossipRun (AlignedBuffer.zero 32) [(1, 0)], fresh], d.routerId = AlignedBuffer.zero 32) ∧
      ∃ db₁ db₂, accumulateAll ⟨∅⟩ (AlignedBuffer.zero 32)
          [gossipRun (AlignedBuffer.zero 32) [(1, 0)], fresh] = some db₁ ∧
        accumulateAll ⟨∅⟩ (AlignedBuffer.zero 32) [fresh, gossipRun (AlignedBuffer.zero 32) [(1, 0)]] =
          some db₂ ∧ ∀ k, db₁.peerStats.find? k = db₂.peerStats.find? k :=
  have hds : ∀ d ∈ [gossipRun (AlignedBuffer.zero 32) [(1, 0)], fresh],
      d.routerId = AlignedBuffer.zero 32 := by decide
  ⟨List.Perm.swap _ _ _, hds,
    accumulatePeerStats_order_independent ⟨∅⟩ _ (List.Perm.swap _ _ _) hds⟩

/-- The contacts `es` keep `handleGossipedRC` within the code's types, where the model's integers
are the code's: fewer than `2^31` of them for the `int32_t` count, times within `int64_t`, and
within it every `last_updated + Lifetime` and every `prevRCExpiration - now`. -/
structure NoWrap (es : List (Int × Int)) : Prop where
  count : es.length < 2 ^ 31
  lastUpdated : ∀ e ∈ es, -2 ^ 63 ≤ e.1 ∧ e.1 + rcLifetime < 2 ^ 63
  now : ∀ e ∈ es, -2 ^ 63 ≤ e.2 ∧ e.2 < 2 ^ 63
  expiry : ∀ e ∈ es, ∀ e' ∈ es, -2 ^ 63 ≤ e.1 + rcLifetime - e'.2 ∧ e.1 + rcLifetime - e'.2 < 2 ^ 63

/-- Under any interleaving of gossip for several routers, the stats of a router not seen before
count its contacts newer than every earlier one and than zero, hold the newest `last_updated`
(or zero), and hold the least time a previous contact had left to live when the next came; so
for the code, whenever its contacts keep it within its types. -/
theorem handleGossipedRC_summarizes (db : PeerDb) (cs : List (AlignedBuffer 32 × Int × Int))
    (r : AlignedBuffer 32) (h : db.peerStats.find? r = none) (_hwrap : NoWrap (contactsOf r cs)) :
    Summarizes (contactsOf r cs) (((db.gossipAll cs).peerStats.find? r).getD fresh) := by
  rw [gossipAll_find? db cs r h]
  exact summarizes_gossipRun r _

theorem handleGossipedRC_summarizes_fresh :
    (⟨∅⟩ : PeerDb).peerStats.find? (AlignedBuffer.zero 32) = none ∧
      NoWrap (contactsOf (AlignedBuffer.zero 32) [(AlignedBuffer.zero 32, 5, 7)]) ∧
      Summarizes (contactsOf (AlignedBuffer.zero 32) [(AlignedBuffer.zero 32, 5, 7)])
        ((((⟨∅⟩ : PeerDb).gossipAll [(AlignedBuffer.zero 32, 5, 7)]).peerStats.find?
          (AlignedBuffer.zero 32)).getD fresh) := by
  have hwrap : NoWrap (contactsOf (AlignedBuffer.zero 32) [(AlignedBuffer.zero 32, 5, 7)]) := by
    have hcs : contactsOf (AlignedBuffer.zero 32) [(AlignedBuffer.zero 32, 5, 7)] = [(5, 7)] := by
      decide
    rw [hcs]
    refine ⟨by decide, ?_, ?_, ?_⟩ <;> simp [rcLifetime]
  exact ⟨rfl, hwrap, handleGossipedRC_summarizes ⟨∅⟩ _ _ rfl hwrap⟩

theorem routerId_gossipedRC (s : PeerStats) (id : AlignedBuffer 32) (lu now : Int) :
    (s.gossipedRC id lu now).routerId = id := by
  unfold PeerStats.gossipedRC
  dsimp only
  split <;> rfl

theorem routerId_gossipRun (id : AlignedBuffer 32) {es : List (Int × Int)} (hes : es ≠ []) :
    (gossipRun id es).routerId = id := by
  rw [← List.dropLast_append_getLast hes, gossipRun, List.foldl_append, List.foldl_cons, List.foldl_nil, routerId_gossipedRC]

/-- With two contacts or more, the least remaining lifetime is one of the expiries. -/
theorem least_mem_expiries (id : AlignedBuffer 32) {es : List (Int × Int)} (h : expiries es ≠ []) :
    (gossipRun id es).leastRCRemainingLifetime ∈ expiries es := by
  obtain ⟨m, hm⟩ := Option.isSome_iff_exists.mp (List.isSome_min?_of_ne_nil h)
  rw [(summarizes_gossipRun id es).least, hm, Option.getD_some]
  exact List.min?_mem hm

theorem peerStats_merge_not_least :
    (∀ (db : PeerDb) (r : AlignedBuffer 32) (lu now : Int), db.peerStats.find? r = none → lu ≤ 0 →
      ∃ s, (db.handleGossipedRC r lu now).peerStats.find? r = some s ∧
        s.numDistinctRCsReceived = 0) ∧
    (∀ (db : PeerDb) (r : AlignedBuffer 32) (es₁ es₂ : List (Int × Int)),
      db.peerStats.find? r = some (gossipRun r es₁) → expiries es₁ ≠ [] → expiries es₂ ≠ [] →
      (gossipRun r es₁).leastRCRemainingLifetime ≠ (gossipRun r es₂).leastRCRemainingLifetime →
      ∃ db' s, db.accumulatePeerStats r (gossipRun r es₂) = some db' ∧
        db'.peerStats.find? r = some s ∧
        ∃ x ∈ expiries es₁ ++ expiries es₂, x < s.leastRCRemainingLifetime) := by
  refine ⟨fun db r lu now h hlu => ?_, fun db r es₁ es₂ h₁ he₁ he₂ hne => ?_⟩
  · -- a first contact no newer than zero is not newer than the default `lastRCUpdated`
    refine ⟨_, by rw [find?_handleGossipedRC, if_pos rfl], ?_⟩
    have hold : ¬(0 : Int) < lu := by omega
    simp [h, fresh, PeerStats.gossipedRC, hold, create]
  · -- the merge keeps the larger of the two least lifetimes
    have hes₂ : es₂ ≠ [] := by
      rintro rfl
      exact he₂ rfl
    refine ⟨_, _, accumulatePeerStats_of_routerId db (routerId_gossipRun r hes₂), by
      rw [AssocMap.find?_insert, if_pos rfl], ?_⟩
    have hm₁ := least_mem_expiries r he₁
    have hm₂ := least_mem_expiries r he₂
    simp only [mergeDelta, h₁, Option.map_some, Option.getD_some, plusAssign]
    rcases lt_or_gt_of_ne hne with hlt | hgt
    · exact ⟨_, List.mem_append_left _ hm₁, lt_max_of_lt_right hlt⟩
    · exact ⟨_, List.mem_append_right _ hm₂, lt_max_of_lt_left hgt⟩

/-- A first contact at time zero is not counted, and merging the runs `[(1, 0), (2, 10)]` and
`[(1, 0), (2, 20)]` keeps the larger least lifetime. -/
theorem peerStats_merge_not_least_runs :
    (∃ s, ((⟨∅⟩ : PeerDb).handleGossipedRC (AlignedBuffer.zero 32) 0 0).peerStats.find?
        (AlignedBuffer.zero 32) = some s ∧ s.numDistinctRCsReceived = 0) ∧
    ∃ db' s, (⟨(∅ : AssocMap _ _).insert (AlignedBuffer.zero 32)
        (gossipRun (AlignedBuffer.zero 32) [(1, 0), (2, 10)])⟩ : PeerDb).accumulatePeerStats
          (AlignedBuffer.zero 32) (gossipRun (AlignedBuffer.zero 32) [(1, 0), (2, 20)]) = some db' ∧
      db'.peerStats.find? (AlignedBuffer.zero 32) = some s ∧
      ∃ x ∈ expiries [(1, 0), (2, 10)] ++ expiries [(1, 0), (2, 20)], x < s.leastRCRemainingLifetime :=
  ⟨peerStats_merge_not_least.1 ⟨∅⟩ _ 0 0 rfl le_rfl,
    peerStats_merge_not_least.2 _ _ _ _ (by rw [AssocMap.find?_insert, if_pos rfl])
      (by decide) (by decide) (by decide)⟩

end PeerDb

end Lokinet.Peerstats
