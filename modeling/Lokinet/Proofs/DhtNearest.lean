import Lokinet.Dht.Bucket
import Lokinet.Lib.ByteOrder
import Lokinet.Lib.Nearest

/-!
What the DHT's nearest-node scans find. `FindCloseExcluding` keeps the least distance seen,
starting from the all-ones key, and replaces it only by a strictly smaller one; so it finds the
nearest key that is not excluded, except that a key at the all-ones distance from the target
(there is at most one) is never found, and `FindClosest` reports that key's bucket as a success
with the result it was given. `GetManyNearExcluding` repeats the scan, excluding each key found,
and so gathers the `N` nearest; `HandleExploritoryRouterLookup` asks it for `min(nodeCount, 4)`
keys while excluding our key and the requester, which the bucket may hold.
-/

namespace Lokinet.Dht

open Lokinet.Util BigEndian Nearest

/-- The distance of `k` from `t`: the bytes of `k ^ t` read as a big-endian number. -/
def dist (t k : Key) : Nat := value (k ^^^ t).bytes

namespace Key

theorem lt_iff (a b : Key) : Key.lt a b = true ↔ value a.bytes < value b.bytes := by
  rw [Key.lt, decide_eq_true_iff, lt_iff_value_lt (a.length_eq.trans b.length_eq.symm)]

theorem lt_irrefl (a : Key) : Key.lt a a = false := by
  simp [Key.lt]

/-- Keys ordered neither way are equal: `Key_t::operator<` is a strict total order. -/
theorem eq_of_not_lt (a b : Key) (hab : Key.lt a b = false) (hba : Key.lt b a = false) : a = b := by
  simp only [Key.lt, decide_eq_false_iff_not] at hab hba
  exact AlignedBuffer.ext (List.le_antisymm hba hab)

theorem value_inj {a b : Key} (h : value a.bytes = value b.bytes) : a = b := by
  apply eq_of_not_lt
  · simpa [Bool.eq_false_iff, lt_iff] using h.ge
  · simpa [Bool.eq_false_iff, lt_iff] using h.le

theorem value_le (a : Key) : value a.bytes ≤ 256 ^ 32 - 1 := by
  have h := value_lt a.bytes
  rw [a.length_eq] at h
  omega

theorem value_allOnes : value allOnes.bytes = 256 ^ 32 - 1 := value_replicate_ff 32

theorem eq_allOnes_iff (a : Key) : a = allOnes ↔ value a.bytes = 256 ^ 32 - 1 := by
  constructor
  · rintro rfl
    exact value_allOnes
  · intro h
    exact value_inj (h.trans value_allOnes.symm)

end Key

theorem dist_inj {t x y : Key} (h : dist t x = dist t y) : x = y := by
  have hxy : x ^^^ t = y ^^^ t := Key.value_inj h
  rw [← AlignedBuffer.xor_xor_cancel x t, hxy, AlignedBuffer.xor_xor_cancel]

/-- A key at the all-ones distance is as far as any. -/
theorem dist_le_of_eq_allOnes {t x y : Key} (hy : y ^^^ t = Key.allOnes) : dist t x ≤ dist t y := by
  rw [dist, dist, hy, Key.value_allOnes]
  exact Key.value_le _

theorem Bucket.nodup (b : Bucket) : b.nodes.Nodup :=
  b.sorted.imp fun {x y} h hxy => by
    subst hxy
    simp [xorMetric, Key.lt_irrefl] at h

/-! ### One scan -/

/-- One turn of the scan: the best so far stays, no farther than the key unless the key is
excluded, or the key replaces it, strictly nearer. -/
theorem closerStep_cases (t : Key) (ex : List Key) (acc : Key × Key) (k : Key) :
    (closerStep t ex acc k = acc ∧ (k ∉ ex → value acc.1.bytes ≤ dist t k)) ∨
      (k ∉ ex ∧ closerStep t ex acc k = (k ^^^ t, k) ∧ dist t k < value acc.1.bytes) := by
  by_cases hk : k ∈ ex
  · exact .inl ⟨by simp [closerStep, hk], fun h => absurd hk h⟩
  by_cases hlt : Key.lt (k ^^^ t) acc.1 = true
  · exact .inr ⟨hk, by simp [closerStep, hk, hlt], (Key.lt_iff _ _).mp hlt⟩
  · refine .inl ⟨by simp [closerStep, hk, hlt], fun _ => ?_⟩
    simpa [Key.lt_iff, dist] using hlt

/-- What a scan from `acc` over `xs` leaves in `r`: a least distance no greater than the one it
started from nor than that of any key not excluded, and either the start unchanged or a scanned
key, not excluded, at that distance and strictly nearer than the start. -/
structure Scanned (t : Key) (ex xs : List Key) (acc r : Key × Key) : Prop where
  le_start : value r.1.bytes ≤ value acc.1.bytes
  le_dist : ∀ k ∈ xs, k ∉ ex → value r.1.bytes ≤ dist t k
  found : r = acc ∨ r.2 ∈ xs ∧ r.2 ∉ ex ∧ r.1 = r.2 ^^^ t ∧ value r.1.bytes < value acc.1.bytes

theorem scanned_foldl (t : Key) (ex : List Key) (xs : List Key) (acc : Key × Key) :
    Scanned t ex xs acc (xs.foldl (closerStep t ex) acc) := by
  induction xs generalizing acc with
  | nil => exact ⟨le_rfl, fun _ h => absurd h List.not_mem_nil, .inl rfl⟩
  | cons x xs ih =>
    rw [List.foldl_cons]
    rcases closerStep_cases t ex acc x with ⟨hkeep, hx⟩ | ⟨hx, hnew, hlt⟩
    · -- the turn kept the best so far
      rw [hkeep]
      obtain ⟨hstart, hdist, hfound⟩ := ih acc
      refine ⟨hstart, fun k hk hke => ?_, ?_⟩
      · rcases List.mem_cons.mp hk with rfl | hk
        · exact hstart.trans (hx hke)
        · exact hdist k hk hke
      · rcases hfound with h | ⟨hm, hex, hd, hlt⟩
        · exact .inl h
        · exact .inr ⟨List.mem_cons_of_mem x hm, hex, hd, hlt⟩
    · -- the turn took `x`
      rw [hnew]
      obtain ⟨hstart, hdist, hfound⟩ := ih (x ^^^ t, x)
      refine ⟨by dsimp only at hstart; unfold dist at hlt; omega, fun k hk hke => ?_, ?_⟩
      · rcases List.mem_cons.mp hk with rfl | hk
        · exact hstart
        · exact hdist k hk hke
      · rcases hfound with h | ⟨hm, hex, hd, hlt'⟩
        · rw [h]
          exact .inr ⟨List.mem_cons_self, hx, rfl, hlt⟩
        · exact .inr ⟨List.mem_cons_of_mem x hm, hex, hd, by dsimp only at hlt'; unfold dist at hlt; omega⟩

/-! ### The keys a scan can find -/

/-- The nodes not excluded: those the lookups are meant to choose from. -/
def candidates (b : Bucket) (s : List Key) : List Key := b.nodes.filter fun k => !s.contains k

/-- The nodes `FindCloseExcluding` can find: not excluded, and not at the all-ones distance. -/
def reachable (b : Bucket) (t : Key) (s : List Key) : List Key :=
  b.nodes.filter fun k => !s.contains k && decide (k ^^^ t ≠ Key.allOnes)

variable {b : Bucket} {t k : Key} {s : List Key}

@[simp] theorem mem_candidates : k ∈ candidates b s ↔ k ∈ b.nodes ∧ k ∉ s := by
  simp [candidates]

@[simp] theorem mem_reachable : k ∈ reachable b t s ↔ k ∈ b.nodes ∧ k ∉ s ∧ k ^^^ t ≠ Key.allOnes := by
  simp [reachable]

theorem nodup_reachable : (reachable b t s).Nodup := b.nodup.filter _

/-- Only what an excluded set holds matters, not how it is stored. -/
theorem reachable_congr {s s' : List Key} (h : ∀ k, k ∈ s ↔ k ∈ s') :
    reachable b t s = reachable b t s' := by
  simp [reachable, h]

theorem candidates_congr {s s' : List Key} (h : ∀ k, k ∈ s ↔ k ∈ s') :
    candidates b s = candidates b s' := by
  simp [candidates, h]

theorem reachable_emplace (s : List Key) (k : Key) :
    reachable b t (StdSet.emplace Key.lt s k).1 = (reachable b t s).filter (· ≠ k) := by
  simp only [reachable, List.filter_filter]
  congr 1
  funext j
  have hj := StdSet.mem_emplace Key.eq_of_not_lt s k j
  by_cases hjk : j = k <;> by_cases hjs : j ∈ s <;> simp_all

/-- `FindCloseExcluding`: when no key can be found, `false` and the result untouched; otherwise
`true` and the reachable key nearest the target among all keys not excluded. -/
theorem findCloseExcluding_eq (b : Bucket) (t result : Key) (s : List Key) :
    (reachable b t s = [] ∧ b.findCloseExcluding t result s = (false, result)) ∨
      ∃ k ∈ reachable b t s, (∀ j ∈ candidates b s, dist t k ≤ dist t j) ∧
        b.findCloseExcluding t result s = (true, k) := by
  obtain ⟨-, hle, hfound⟩ := scanned_foldl t s b.nodes (Key.allOnes, result)
  have hfc : b.findCloseExcluding t result s =
      (Key.lt (b.nodes.foldl (closerStep t s) (Key.allOnes, result)).1 Key.allOnes,
        (b.nodes.foldl (closerStep t s) (Key.allOnes, result)).2) := rfl
  rcases hfound with hacc | ⟨hmem, hex, hd, hlt⟩
  · -- nothing found: every key not excluded is at the all-ones distance
    refine .inl ⟨List.eq_nil_iff_forall_not_mem.mpr fun k hk => ?_, by
      rw [hfc, hacc, Key.lt_irrefl]⟩
    obtain ⟨hk, hks, hne⟩ := mem_reachable.mp hk
    have hmax := hle k hk hks
    rw [hacc, Key.value_allOnes] at hmax
    exact hne ((Key.eq_allOnes_iff _).mpr (le_antisymm (Key.value_le _) hmax))
  · refine .inr ⟨_, mem_reachable.mpr ⟨hmem, hex, ?_⟩, fun j hj => ?_, ?_⟩
    · rw [← hd, Ne, Key.eq_allOnes_iff, ← Key.value_allOnes]
      exact hlt.ne
    · obtain ⟨hj, hjs⟩ := mem_candidates.mp hj
      rw [dist, ← hd]
      exact hle j hj hjs
    · rw [hfc, (Key.lt_iff _ _).mpr hlt]

theorem reachable_subset_candidates (h : k ∈ reachable b t s) : k ∈ candidates b s := by
  obtain ⟨hk, hks, -⟩ := mem_reachable.mp h
  exact mem_candidates.mpr ⟨hk, hks⟩

/-! ### Repeated scans -/

/-- The loop of `GetManyNearExcluding`: it succeeds exactly when `n` keys are reachable, and then
adds to `result` the `n` reachable keys nearest the target. -/
theorem getManyNearExcludingLoop_eq (b : Bucket) (t : Key) (n : ℕ) (s : List Key) (peer : Key)
    (result : List Key) :
    (b.getManyNearExcludingLoop t n s peer result).1 = decide (n ≤ (reachable b t s).length) ∧
      ((b.getManyNearExcludingLoop t n s peer result).1 = true →
        ∃ R, IsNearest (dist t) (reachable b t s) n R ∧
          ∀ x, x ∈ (b.getManyNearExcludingLoop t n s peer result).2 ↔ x ∈ result ∨ x ∈ R) := by
  induction n generalizing s peer result with
  | zero =>
    refine ⟨by simp [Bucket.getManyNearExcludingLoop], fun _ => ⟨[], isNearest_nil _, ?_⟩⟩
    simp [Bucket.getManyNearExcludingLoop]
  | succ n ih =>
    rcases findCloseExcluding_eq b t peer s with ⟨hnil, hfc⟩ | ⟨k, hk, hmin, hfc⟩
    · -- nothing left to find: the loop stops with `false`
      have hloop : b.getManyNearExcludingLoop t (n + 1) s peer result = (false, result) := by
        simp [Bucket.getManyNearExcludingLoop, hfc]
      simp [hloop, hnil]
    · -- `k` is found, excluded from the next turn and added to `result`
      have hloop : b.getManyNearExcludingLoop t (n + 1) s peer result =
          b.getManyNearExcludingLoop t n (StdSet.emplace Key.lt s k).1 k
            (StdSet.emplace Key.lt result k).1 := by
        simp [Bucket.getManyNearExcludingLoop, hfc]
      have hlen := length_filter_ne_add_one nodup_reachable hk
      obtain ⟨hres, hR⟩ := ih (StdSet.emplace Key.lt s k).1 k (StdSet.emplace Key.lt result k).1
      rw [reachable_emplace] at hres hR
      rw [hloop]
      refine ⟨by rw [hres]; simp only [decide_eq_decide]; omega, fun htrue => ?_⟩
      obtain ⟨R, hnear, hmem⟩ := hR htrue
      refine ⟨k :: R, hnear.cons hk fun y hy => hmin y (reachable_subset_candidates hy), fun x => ?_⟩
      rw [hmem, StdSet.mem_emplace Key.eq_of_not_lt, List.mem_cons]
      tauto

/-- A key not excluded that no scan reaches is at the all-ones distance, as far as any. -/
theorem dist_le_of_not_reachable {y : Key} (hy : y ∈ candidates b s) (hyr : y ∉ reachable b t s) (x : Key) :
    dist t x ≤ dist t y := by
  obtain ⟨hy, hys⟩ := mem_candidates.mp hy
  apply dist_le_of_eq_allOnes
  by_contra hne
  exact hyr (mem_reachable.mpr ⟨hy, hys, hne⟩)

theorem reachable_ofList (exclude : List Key) :
    reachable b t (StdSet.ofList Key.lt exclude) = reachable b t exclude :=
  reachable_congr (StdSet.mem_ofList Key.eq_of_not_lt exclude)

theorem candidates_ofList (exclude : List Key) :
    candidates b (StdSet.ofList Key.lt exclude) = candidates b exclude :=
  candidates_congr (StdSet.mem_ofList Key.eq_of_not_lt exclude)

/-- `GetManyNearExcluding` succeeds exactly when `N` keys are reachable. -/
theorem getManyNearExcluding_fst (b : Bucket) (t : Key) (result : List Key) (N : ℕ)
    (exclude : List Key) :
    (b.getManyNearExcluding t result N exclude).1 = decide (N ≤ (reachable b t exclude).length) := by
  rw [Bucket.getManyNearExcluding, ← reachable_ofList exclude]
  exact (getManyNearExcludingLoop_eq b t N _ _ result).1

/-- When it succeeds, `GetManyNearExcluding` adds to `result` the `N` keys not excluded nearest
the target: the keys it cannot reach are the farthest of all. -/
theorem getManyNearExcluding_snd {b : Bucket} {t : Key} {result : List Key} {N : ℕ}
    {exclude : List Key} (h : (b.getManyNearExcluding t result N exclude).1 = true) :
    ∃ R, IsNearest (dist t) (candidates b exclude) N R ∧
      ∀ x, x ∈ (b.getManyNearExcluding t result N exclude).2 ↔ x ∈ result ∨ x ∈ R := by
  obtain ⟨-, hR⟩ := getManyNearExcludingLoop_eq b t N (StdSet.ofList Key.lt exclude)
    (AlignedBuffer.zero 32) result
  obtain ⟨R, hnear, hmem⟩ := hR h
  rw [reachable_ofList] at hnear
  refine ⟨R, hnear.of_farther (fun x hx => reachable_subset_candidates hx) ?_, hmem⟩
  exact fun y hy hyr x _ => dist_le_of_not_reachable hy hyr x

theorem getManyNearExcluding_nearest (b : Bucket) (t : Key) (result : List Key) (N : ℕ)
    (exclude : List Key) :
    (b.getManyNearExcluding t result N exclude).1 = decide (N ≤ (reachable b t exclude).length) ∧
      ((b.getManyNearExcluding t result N exclude).1 = true →
        ∃ R, IsNearest (dist t) (candidates b exclude) N R ∧
          ∀ x, x ∈ (b.getManyNearExcluding t result N exclude).2 ↔ x ∈ result ∨ x ∈ R) :=
  ⟨getManyNearExcluding_fst b t result N exclude, getManyNearExcluding_snd⟩

/-! ### The exploratory lookup -/

theorem reachable_eq_filter :
    reachable b t s = (candidates b s).filter fun k => decide (k ^^^ t ≠ Key.allOnes) := by
  rw [reachable, candidates, List.filter_filter]
  congr 1
  funext k
  exact Bool.and_comm _ _

theorem length_reachable_le : (reachable b t s).length ≤ (candidates b s).length := by
  rw [reachable_eq_filter]
  exact List.length_filter_le _ _

/-- A key not excluded at the all-ones distance is one no scan reaches. -/
theorem length_reachable_lt_candidates (hk : Key.allOnes ^^^ t ∈ candidates b s) :
    (reachable b t s).length < (candidates b s).length := by
  rw [reachable_eq_filter, List.length_filter_lt_length_iff_exists]
  exact ⟨_, hk, by simp⟩

/-- An excluded node is one fewer to find. -/
theorem length_candidates_lt (hk : k ∈ b.nodes) (hks : k ∈ s) :
    (candidates b s).length < b.nodes.length := by
  rw [candidates, List.length_filter_lt_length_iff_exists]
  exact ⟨k, hk, by simp [hks]⟩

/-- The lookup as the search it makes: `none` without nodes, and otherwise the routers found,
less those bad for connecting, when `GetManyNearExcluding` succeeds. -/
theorem handleExploritoryRouterLookup_eq (ourKey : Key) (b : Bucket) (isBadForConnect : Key → Bool)
    (requester t : Key) :
    handleExploritoryRouterLookup ourKey (some b) isBadForConnect requester t =
      if b.nodes.length = 0 then none
      else
        let r := b.getManyNearExcluding t [] (min b.nodes.length 4)
          (StdSet.ofList Key.lt [ourKey, requester])
        if r.1 then some (r.2.filter fun f => !isBadForConnect f) else none := rfl

/-- The lookup fails whenever fewer keys are reachable than it asks for. -/
theorem handleExploritoryRouterLookup_of_lt (ourKey : Key) (b : Bucket) (isBadForConnect : Key → Bool)
    (requester t : Key) (h : (reachable b t [ourKey, requester]).length < min b.nodes.length 4) :
    handleExploritoryRouterLookup ourKey (some b) isBadForConnect requester t = none := by
  have hfst := getManyNearExcluding_fst b t [] (min b.nodes.length 4)
    (StdSet.ofList Key.lt [ourKey, requester])
  rw [reachable_ofList] at hfst
  rw [handleExploritoryRouterLookup_eq]
  split_ifs with h0
  · rfl
  · dsimp only
    rw [hfst, if_neg (by simpa using h)]

/-- The lookup succeeds exactly when there are nodes and `min(nodeCount, 4)` of them are
reachable, and then replies with the `min(nodeCount, 4)` nodes nearest the target among those
that are neither our key nor the requester, less the routers bad for connecting. -/
theorem handleExploritoryRouterLookup_nearest (ourKey : Key) (b : Bucket)
    (isBadForConnect : Key → Bool) (requester t : Key) :
    (handleExploritoryRouterLookup ourKey (some b) isBadForConnect requester t).isSome =
        decide (0 < b.nodes.length ∧ min b.nodes.length 4 ≤ (reachable b t [ourKey, requester]).length) ∧
      ∀ closer, handleExploritoryRouterLookup ourKey (some b) isBadForConnect requester t = some closer →
        ∃ R, IsNearest (dist t) (candidates b [ourKey, requester]) (min b.nodes.length 4) R ∧
          ∀ x, x ∈ closer ↔ x ∈ R ∧ isBadForConnect x = false := by
  set r := b.getManyNearExcluding t [] (min b.nodes.length 4) (StdSet.ofList Key.lt [ourKey, requester])
    with hr
  have hfst : r.1 = decide (min b.nodes.length 4 ≤ (reachable b t [ourKey, requester]).length) := by
    rw [hr, getManyNearExcluding_fst, reachable_ofList]
  rw [handleExploritoryRouterLookup_eq]
  by_cases h0 : b.nodes.length = 0
  · simp [h0]
  dsimp only
  rw [if_neg h0, ← hr]
  by_cases hsucc : r.1 = true
  · -- the search succeeded: the reply is what it found, less the bad routers
    rw [if_pos hsucc]
    refine ⟨by simpa [h0, Nat.pos_iff_ne_zero] using hfst.symm.trans hsucc, ?_⟩
    rintro closer ⟨⟩
    obtain ⟨R, hnear, hmem⟩ := getManyNearExcluding_snd hsucc
    rw [candidates_ofList] at hnear
    refine ⟨R, hnear, fun x => ?_⟩
    rw [List.mem_filter, hmem]
    simp
  · rw [if_neg hsucc]
    refine ⟨?_, fun _ h => nomatch h⟩
    simpa [h0, Nat.pos_iff_ne_zero, hfst] using hsucc

/-- A key whose bytes are zero but the last. -/
def lastByteKey (n : UInt8) : Key := ⟨List.replicate 31 0 ++ [n], by simp⟩

/-- A bucket of two nodes, the keys ending in 1 and 2, around the zero key. -/
def pairBucket : Bucket := ⟨AlignedBuffer.zero 32, [lastByteKey 1, lastByteKey 2], by decide⟩

theorem nearest_scans_miss (b : Bucket) (t result : Key) (s found : List Key) (ourKey requester : Key)
    (isBadForConnect : Key → Bool) :
    (Key.allOnes ^^^ t ∈ candidates b s → (∀ k ∈ candidates b s, k = Key.allOnes ^^^ t) →
      b.findCloseExcluding t result s = (false, result)) ∧
    (b.nodes = [Key.allOnes ^^^ t] → b.findClosest t result = (true, result)) ∧
    (Key.allOnes ^^^ t ∈ candidates b s →
      (b.getManyNearExcluding t found (candidates b s).length s).1 = false) ∧
    (requester ∈ b.nodes → b.nodes.length ≤ 4 →
      handleExploritoryRouterLookup ourKey (some b) isBadForConnect requester t = none) := by
  refine ⟨fun _ hall => ?_, fun hnodes => ?_, fun hk => ?_, fun hreq hlen => ?_⟩
  · -- the only key not excluded is at the all-ones distance, which no scan reaches
    rcases findCloseExcluding_eq b t result s with ⟨-, h⟩ | ⟨k, hk, -, -⟩
    · exact h
    · obtain ⟨-, -, hne⟩ := mem_reachable.mp hk
      rw [hall k (reachable_subset_candidates hk), AlignedBuffer.xor_xor_cancel] at hne
      exact absurd rfl hne
  · simp [Bucket.findClosest, hnodes, closerStep, Key.lt_irrefl]
  · rw [getManyNearExcluding_fst, decide_eq_false_iff_not, not_le]
    exact length_reachable_lt_candidates hk
  · -- the requester is one of the nodes asked for, and is excluded
    apply handleExploritoryRouterLookup_of_lt
    have hcand := length_candidates_lt hreq (by simp : requester ∈ [ourKey, requester])
    have hreach : (reachable b t [ourKey, requester]).length ≤ _ := length_reachable_le
    omega

theorem nearest_scans_miss_pair :
    lastByteKey 2 ∈ candidates pairBucket [AlignedBuffer.zero 32, lastByteKey 1] ∧
      handleExploritoryRouterLookup (AlignedBuffer.zero 32) (some pairBucket) (fun _ => false)
        (lastByteKey 1) (AlignedBuffer.zero 32) = none :=
  ⟨by decide, (nearest_scans_miss pairBucket (AlignedBuffer.zero 32) (AlignedBuffer.zero 32) [] []
    (AlignedBuffer.zero 32) (lastByteKey 1) (fun _ => false)).2.2.2 (by decide) (by decide)⟩

end Lokinet.Dht
