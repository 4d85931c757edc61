import Lokinet.Handlers.TunExit
import Lokinet.Proofs.Allocation

/-!
The two walks over the exit entries of an address. `FlushSend` keeps the exit of the last entry
that qualifies, `HandleInboundPacket` decides on the first. When those two entries name the same
exit, the exit packets go to is the one replies are accepted from. Two nested ranges mapped to
different exits make them differ: packets go to the exit of the inner range, replies are only
accepted from the exit of the outer one.
-/

namespace Lokinet.Handlers

open Lokinet.Util Lokinet.Net

section Walks

variable (x : BitVec 128)

/-- The entries of a walk that qualify for `x`. -/
def qualifying (entries : List (IPRange × AlignedBuffer 32)) : List (IPRange × AlignedBuffer 32) :=
  entries.filter fun e => exitRangeAllows e.1 x

theorem foldl_selectStep (acc : AlignedBuffer 32) : ∀ entries : List (IPRange × AlignedBuffer 32),
    entries.foldl (fun addr e =>
      if e.1.bogonRange && e.1.contains x then e.2 else if !isBogon x then e.2 else addr) acc =
    (((qualifying x entries).getLast?).map Prod.snd).getD acc := by
  intro entries
  induction entries using List.reverseRecOn with
  | nil => rfl
  | append_singleton entries e ih =>
    rw [List.foldl_append, List.foldl_cons, List.foldl_nil, ih]
    unfold qualifying
    rw [List.filter_append]
    by_cases he : exitRangeAllows e.1 x = true
    · have hcond : (e.1.bogonRange && e.1.contains x) = true ∨ (!isBogon x) = true := by
        simpa [exitRangeAllows] using he
      rw [List.filter_singleton, he, cond_true, List.getLast?_append_cons, List.getLast?_singleton]
      rcases hcond with h | h
      · simp [h]
      · by_cases h' : (e.1.bogonRange && e.1.contains x) = true <;> simp [h, h']
    · have hb : (e.1.bogonRange && e.1.contains x) = false ∧ (!isBogon x) = false := by
        simpa [exitRangeAllows] using he
      rw [List.filter_singleton, Bool.eq_false_iff.mpr he, cond_false, List.append_nil, hb.1, hb.2]
      rfl

/-- `FlushSend`'s loop keeps the exit of the last qualifying entry. -/
theorem selectExit_eq_getLast? (entries : List (IPRange × AlignedBuffer 32)) :
    selectExit entries x = (((qualifying x entries).getLast?).map Prod.snd).getD (AlignedBuffer.zero 32) :=
  foldl_selectStep x _ entries

/-- `HandleInboundPacket`'s loop decides on the first qualifying entry. -/
theorem allowFrom_eq_head? (entries : List (IPRange × AlignedBuffer 32)) (fromAddr : AlignedBuffer 32) :
    allowFrom entries x fromAddr = (((qualifying x entries).head?).map fun e => e.2 == fromAddr).getD false := by
  rw [allowFrom, qualifying, List.head?_filter]
  cases entries.find? fun e => exitRangeAllows e.1 x <;> rfl

end Walks

/-- When the first and the last qualifying entry for `x` name the same exit, `FlushSend` sends to
a nonzero exit exactly when `HandleInboundPacket` accepts replies for `x` from it. -/
theorem exit_walks_agree (exitMap : ExitMap) (x : BitVec 128) (A : AlignedBuffer 32)
    (hA : A ≠ AlignedBuffer.zero 32)
    (hsame : ((qualifying x (exitMap.findAllEntries addressLt x)).head?).map Prod.snd =
      ((qualifying x (exitMap.findAllEntries addressLt x)).getLast?).map Prod.snd) :
    exitFor exitMap x = some A ↔ acceptsExitTraffic exitMap x A = true := by
  unfold exitFor acceptsExitTraffic
  dsimp only
  rw [selectExit_eq_getLast?, allowFrom_eq_head?]
  cases hlast : (qualifying x (exitMap.findAllEntries addressLt x)).getLast? with
  | none =>
    have hhead : (qualifying x (exitMap.findAllEntries addressLt x)).head? = none := by
      rw [List.head?_eq_none_iff, ← List.getLast?_eq_none_iff, hlast]
    rw [hhead]
    simp
  | some e =>
    obtain ⟨e', hhead, he'⟩ : ∃ e', (qualifying x (exitMap.findAllEntries addressLt x)).head? = some e' ∧
        e'.2 = e.2 := by
      rw [hlast] at hsame
      cases hh : (qualifying x (exitMap.findAllEntries addressLt x)).head? with
      | none =>
        rw [hh] at hsame
        cases hsame
      | some e' =>
        rw [hh] at hsame
        exact ⟨e', rfl, Option.some.inj hsame⟩
    have hne : (exitMap.findAllEntries addressLt x).isEmpty = false := by
      have hmem := List.mem_of_getLast? hlast
      rw [qualifying, List.mem_filter] at hmem
      exact List.isEmpty_eq_false_iff.mpr (List.ne_nil_of_mem hmem.1)
    rw [hhead, hne]
    by_cases he : e.2 = A
    · simp [he', he, hA]
    · simp [he', he]

/-- `1.0.0.0/8` for one exit, `1.2.0.0/16` for another. -/
def nestedExits : ExitMap :=
  (IPRangeMap.empty.insert (IPRange.fromIPv4 1 0 0 0 8) (keyOf 1)).insert (IPRange.fromIPv4 1 2 0 0 16) (keyOf 2)

def oneExit : ExitMap := IPRangeMap.empty.insert (IPRange.fromIPv4 1 0 0 0 8) (keyOf 1)

set_option maxRecDepth 8000 in
theorem exit_walks_agree_oneExit :
    keyOf 1 ≠ AlignedBuffer.zero 32 ∧
      ((qualifying (expandV4 0x01020304) (oneExit.findAllEntries addressLt (expandV4 0x01020304))).head?).map
          Prod.snd =
        ((qualifying (expandV4 0x01020304) (oneExit.findAllEntries addressLt (expandV4 0x01020304))).getLast?).map
          Prod.snd ∧
      (exitFor oneExit (expandV4 0x01020304) = some (keyOf 1) ↔
        acceptsExitTraffic oneExit (expandV4 0x01020304) (keyOf 1) = true) :=
  ⟨by decide, by decide,
    exit_walks_agree oneExit (expandV4 0x01020304) (keyOf 1) (by decide) (by decide)⟩

set_option maxRecDepth 8000 in
theorem exit_routing_disagrees_on_nested_ranges :
    isBogon (expandV4 0x01020304) = false ∧
      exitFor nestedExits (expandV4 0x01020304) = some (keyOf 2) ∧
      acceptsExitTraffic nestedExits (expandV4 0x01020304) (keyOf 2) = false ∧
      acceptsExitTraffic nestedExits (expandV4 0x01020304) (keyOf 1) = true := by
  refine ⟨?_, ?_, ?_, ?_⟩ <;> decide

end Lokinet.Handlers
