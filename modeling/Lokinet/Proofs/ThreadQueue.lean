import Lokinet.Thread.Queue

/-!
Run by one thread, a `thread::Queue` of capacity `c` is a bounded FIFO. `Fifo` says what the
queue is for: the elements pushed and not yet popped, oldest first, and whether pushes are
allowed. `Refines` lays such a FIFO out in a queue: the `j`-th element from the front lives in
the cell of combined index `(popIndex + j) % span c`, whose slot holds it and whose state word
says `full` in that index's generation; the cells after the last element say `empty` in theirs.
Every call keeps the layout and answers as the FIFO does, over runs of any length, through
every wrap of the combined index and of the generations.
-/

namespace Lokinet.Thread

open Word32

/-- The elements of a queue, oldest first, and whether it takes pushes. -/
structure Fifo (α : Type) where
  items : List α
  enabled : Bool

namespace Fifo

variable {α : Type}

def empty : Fifo α := ⟨[], true⟩

/-- What each call does to a FIFO of capacity `c`. -/
def step (c : Nat) (f : Fifo α) : Op α → Reply α × Fifo α
  | .tryPushBack value =>
    if !f.enabled then (.pushed .queueDisabled, f)
    else if c ≤ f.items.length then (.pushed .queueFull, f)
    else (.pushed .success, { f with items := f.items ++ [value] })
  | .tryPopFront => (.popped f.items.head?, { f with items := f.items.tail })
  | .removeAll => (.done, { f with items := [] })
  | .disable => (.done, { f with enabled := false })
  | .enable => (.done, { f with enabled := true })

def run (c : Nat) (f : Fifo α) : List (Op α) → List (Reply α) × Fifo α
  | [] => ([], f)
  | op :: ops =>
    let r := (f.step c op).2.run c ops
    ((f.step c op).1 :: r.1, r.2)

end Fifo

section Geometry

/-- The generations of a queue of capacity `c`, as `numGenerations` counts them. -/
def gens (c : Nat) : Nat := min (2 ^ 31 / c) (2 ^ 30)

/-- The combined indexes of a queue of capacity `c`: a push or pop index runs modulo `span c`. -/
def span (c : Nat) : Nat := gens c * c

variable {c : Nat}

theorem numGenerations_toNat (c : Nat) : (numGenerations c).toNat = gens c := by
  have hle : min (2 ^ 31 / c) (2 ^ 30) ≤ 2 ^ 30 := Nat.min_le_right _ _
  unfold numGenerations gens
  rw [show numCombinedIndexes.toNat = 2 ^ 31 from rfl, show numElementGenerations = 2 ^ 30 from rfl,
    UInt32.toNat_ofNat_of_lt' (show _ < 2 ^ 32 by omega)]

theorem gens_le (c : Nat) : gens c ≤ 2 ^ 30 := Nat.min_le_right _ _

theorem two_le_gens (hc : 0 < c) (hcap : c ≤ maxCapacity) : 2 ≤ gens c := by
  have hcap' : c ≤ 2 ^ 30 := hcap
  have hdiv : 2 ^ 31 / 2 ^ 30 ≤ 2 ^ 31 / c := Nat.div_le_div_left hcap' hc
  unfold gens
  omega

theorem span_le (c : Nat) : span c ≤ 2 ^ 31 := by
  have hmul : 2 ^ 31 / c * c ≤ 2 ^ 31 := Nat.div_mul_le_self _ _
  calc span c = gens c * c := rfl
    _ ≤ 2 ^ 31 / c * c := Nat.mul_le_mul_right _ (Nat.min_le_left _ _)
    _ ≤ 2 ^ 31 := hmul

theorem two_mul_le_span (hc : 0 < c) (hcap : c ≤ maxCapacity) : 2 * c ≤ span c :=
  Nat.mul_le_mul_right _ (two_le_gens hc hcap)

theorem lt_span_of_lt (hc : 0 < c) (hcap : c ≤ maxCapacity) {j : Nat} (hj : j < c) : j < span c := by
  have := two_mul_le_span hc hcap
  omega

/-- The slot of a combined index is its remainder by `c`, before or after the wrap. -/
theorem mod_span_mod (a : Nat) : a % span c % c = a % c :=
  Nat.mod_mod_of_dvd _ (Dvd.intro_left _ rfl)

theorem div_lt_gens (hc : 0 < c) {k : Nat} (hk : k < span c) : k / c < gens c :=
  (Nat.div_lt_iff_lt_mul hc).mpr hk

/-- The cells from the pop index on lie in `c` different slots. -/
theorem slot_inj {Q i j : Nat} (hi : i < c) (hj : j < c) (h : (Q + i) % c = (Q + j) % c) : i = j := by
  have hij : i % c = j % c := Nat.ModEq.add_left_cancel' Q h
  rwa [Nat.mod_eq_of_lt hi, Nat.mod_eq_of_lt hj] at hij

end Geometry

section Encoding

theorem ElementState.toUInt32_lt (s : ElementState) : s.toUInt32.toNat < 4 := by
  cases s <;> decide

theorem ElementState.ofUInt32_toUInt32 (s : ElementState) : ElementState.ofUInt32 s.toUInt32 = s := by
  cases s <;> rfl

theorem ElementState.toUInt32_inj {s s' : ElementState} (h : s.toUInt32 = s'.toUInt32) : s = s' := by
  rw [← ElementState.ofUInt32_toUInt32 s, h, ElementState.ofUInt32_toUInt32]

variable {g g' : UInt32} {s s' : ElementState}

theorem encodeElement_inj (hg : g.toNat < 2 ^ 30) (hg' : g'.toNat < 2 ^ 30) :
    encodeElement g s = encodeElement g' s' ↔ g = g' ∧ s = s' := by
  unfold encodeElement
  rw [show generationCountShift = 2 from rfl, pack_inj hg hg' s.toUInt32_lt s'.toUInt32_lt]
  constructor
  · rintro ⟨rfl, hs⟩
    exact ⟨rfl, ElementState.toUInt32_inj hs⟩
  · rintro ⟨rfl, rfl⟩
    exact ⟨rfl, rfl⟩

theorem decodeGeneration_encodeElement (hg : g.toNat < 2 ^ 30) :
    decodeGenerationFromElementState (encodeElement g s) = g :=
  pack_shiftRight hg s.toUInt32_lt

theorem decodeState_encodeElement (hg : g.toNat < 2 ^ 30) :
    decodeStateFromElementState (encodeElement g s) = s := by
  unfold decodeStateFromElementState encodeElement
  rw [show elementStateMask = 3 from rfl, show generationCountShift = 2 from rfl, pack_and_three hg s.toUInt32_lt, ElementState.ofUInt32_toUInt32]

theorem isDisabledFlagSet_iff (x : UInt32) : isDisabledFlagSet x = true ↔ 2 ^ 31 ≤ x.toNat := by
  unfold isDisabledFlagSet
  rw [bne_iff_ne]
  exact and_top_ne_zero_iff x

theorem discardDisabledFlag_toNat (x : UInt32) : (discardDisabledFlag x).toNat = x.toNat % 2 ^ 31 :=
  toNat_and_not_top x

end Encoding

namespace QueueManager

/-- The constants and the state array of a manager built for capacity `c`. -/
structure Shape (c : Nat) (m : QueueManager) : Prop where
  pos : 0 < c
  le_max : c ≤ maxCapacity
  capacity : m.capacity = c
  maxGeneration : m.maxGeneration = numGenerations c - 1
  maxCombinedIndex : m.maxCombinedIndex = numGenerations c * UInt32.ofNat c - 1
  states_length : m.states.length = c

variable {c : Nat} {m : QueueManager}

theorem create_shape (hc : 0 < c) (hcap : c ≤ maxCapacity) : Shape c (create c) :=
  ⟨hc, hcap, rfl, rfl, rfl, List.length_replicate⟩

@[simp] theorem setState_pushIndex (i v : UInt32) : (m.setState i v).pushIndex = m.pushIndex := rfl

@[simp] theorem setState_popIndex (i v : UInt32) : (m.setState i v).popIndex = m.popIndex := rfl

namespace Shape

variable (hs : Shape c m)
include hs

theorem maxGeneration_toNat : m.maxGeneration.toNat = gens c - 1 := by
  have h2 := two_le_gens hs.pos hs.le_max
  rw [hs.maxGeneration, UInt32.toNat_sub_of_le _ _ (by simp [UInt32.le_iff_toNat_le, numGenerations_toNat]; omega),
    numGenerations_toNat]
  rfl

theorem maxCombinedIndex_toNat : m.maxCombinedIndex.toNat = span c - 1 := by
  have hspan := span_le c
  have h2 := two_mul_le_span hs.pos hs.le_max
  have hcap : c ≤ 2 ^ 30 := hs.le_max
  have hc := hs.pos
  have hmul : (numGenerations c * UInt32.ofNat c).toNat = span c := by
    rw [UInt32.toNat_mul, numGenerations_toNat, UInt32.toNat_ofNat_of_lt' (show c < 2 ^ 32 by omega)]
    exact Nat.mod_eq_of_lt (by unfold span at hspan; omega)
  rw [hs.maxCombinedIndex, UInt32.toNat_sub_of_le _ _ (by simp [UInt32.le_iff_toNat_le, hmul]; omega), hmul]
  rfl

theorem nextCombinedIndex_toNat {k : UInt32} (hk : k.toNat < span c) :
    (m.nextCombinedIndex k).toNat = (k.toNat + 1) % span c := by
  have hmax := hs.maxCombinedIndex_toNat
  have hspan := span_le c
  unfold nextCombinedIndex
  split_ifs with h
  · rw [← h, hmax, Nat.sub_add_cancel (by omega), Nat.mod_self]
    rfl
  · have hne : k.toNat ≠ span c - 1 := fun he => h (UInt32.toNat_inj.mp (by omega))
    rw [UInt32.toNat_add, Nat.mod_eq_of_lt (by simp; omega), Nat.mod_eq_of_lt (by omega)]
    rfl

theorem nextGeneration_toNat {g : UInt32} (hg : g.toNat < gens c) :
    (m.nextGeneration g).toNat = (g.toNat + 1) % gens c := by
  have hmax := hs.maxGeneration_toNat
  have hgens := gens_le c
  unfold nextGeneration
  split_ifs with h
  · rw [← h, hmax, Nat.sub_add_cancel (by omega), Nat.mod_self]
    rfl
  · have hne : g.toNat ≠ gens c - 1 := fun he => h (UInt32.toNat_inj.mp (by omega))
    rw [UInt32.toNat_add, Nat.mod_eq_of_lt (by simp; omega), Nat.mod_eq_of_lt (by omega)]
    rfl

theorem generationOf_eq (k : UInt32) : m.generationOf k = UInt32.ofNat (k.toNat / c) := by
  rw [generationOf, hs.capacity]

theorem slotOf_toNat (k : UInt32) : (m.slotOf k).toNat = k.toNat % c := by
  have hlt : k.toNat % c < c := Nat.mod_lt _ hs.pos
  have hcap : c ≤ 2 ^ 30 := hs.le_max
  rw [slotOf, hs.capacity, UInt32.toNat_ofNat_of_lt' (show _ < 2 ^ 32 by omega)]


theorem setState (i v : UInt32) : Shape c (m.setState i v) :=
  ⟨hs.pos, hs.le_max, hs.capacity, hs.maxGeneration, hs.maxCombinedIndex, by
    rw [QueueManager.setState, List.length_set, hs.states_length]⟩

theorem withPushIndex (k : UInt32) : Shape c { m with pushIndex := k } :=
  ⟨hs.pos, hs.le_max, hs.capacity, hs.maxGeneration, hs.maxCombinedIndex, hs.states_length⟩

theorem withPopIndex (k : UInt32) : Shape c { m with popIndex := k } :=
  ⟨hs.pos, hs.le_max, hs.capacity, hs.maxGeneration, hs.maxCombinedIndex, hs.states_length⟩

theorem signed_maxGeneration : signed m.maxGeneration = gens c - 1 := by
  have hle := gens_le c
  have h2 := two_le_gens hs.pos hs.le_max
  rw [signed_of_lt (by rw [hs.maxGeneration_toNat]; omega), hs.maxGeneration_toNat]
  omega

/-- The generation after `a`, less `a`, as `reservePushIndex` reads it: `1`, or `-maxGeneration`
where the generations wrap. -/
theorem signed_next_sub {a : Nat} (ha : a < gens c) :
    signed (UInt32.ofNat ((a + 1) % gens c) - UInt32.ofNat a) = 1 ∨
      signed (UInt32.ofNat ((a + 1) % gens c) - UInt32.ofNat a) = -signed m.maxGeneration := by
  have hle := gens_le c
  have hmod : (a + 1) % gens c < gens c := Nat.mod_lt _ (by omega)
  rw [signed_sub (by rw [UInt32.toNat_ofNat_of_lt' (show _ < 2 ^ 32 by omega)]; omega)
      (by rw [UInt32.toNat_ofNat_of_lt' (show _ < 2 ^ 32 by omega)]; omega),
    UInt32.toNat_ofNat_of_lt' (show _ < 2 ^ 32 by omega), UInt32.toNat_ofNat_of_lt' (show _ < 2 ^ 32 by omega),
    hs.signed_maxGeneration]
  by_cases hwrap : a + 1 < gens c
  · left
    rw [Nat.mod_eq_of_lt hwrap]
    omega
  · right
    have hlast : a + 1 = gens c := by omega
    rw [hlast, Nat.mod_self]
    omega

end Shape

end QueueManager

section Layout

variable {c : Nat}

/-- The combined index of the `j`-th cell from the pop index `Q`. -/
def cellIndex (c Q j : Nat) : Nat := (Q + j) % span c

theorem cellIndex_lt (hc : 0 < c) (hcap : c ≤ maxCapacity) (Q j : Nat) : cellIndex c Q j < span c :=
  Nat.mod_lt _ (by have := two_mul_le_span hc hcap; omega)

theorem cellIndex_zero {Q : Nat} (hQ : Q < span c) : cellIndex c Q 0 = Q := Nat.mod_eq_of_lt hQ

/-- The cell a capacity on from the pop index is the same slot one generation on. -/
theorem cellIndex_capacity_div (hc : 0 < c) (Q : Nat) : cellIndex c Q c / c = (Q / c + 1) % gens c :=
  add_mod_mul_div hc Q

/-- Moving the pop index on by one moves every cell down by one. -/
theorem cellIndex_succ (Q j : Nat) : cellIndex c ((Q + 1) % span c) j = cellIndex c Q (j + 1) := by
  unfold cellIndex
  rw [Nat.mod_add_mod, Nat.add_assoc, Nat.add_comm 1 j]

theorem slot_succ (Q j : Nat) : ((Q + 1) % span c + j) % c = (Q + (j + 1)) % c := by
  rw [Nat.add_mod, mod_span_mod, ← Nat.add_mod, Nat.add_assoc, Nat.add_comm 1 j]

/-- The generation of a cell fits the 30 bits a state word keeps for it. -/
theorem generation_toNat (hc : 0 < c) (hcap : c ≤ maxCapacity) (Q j : Nat) :
    (UInt32.ofNat (cellIndex c Q j / c)).toNat = cellIndex c Q j / c := by
  have hlt := div_lt_gens hc (cellIndex_lt hc hcap Q j)
  have hle := gens_le c
  exact UInt32.toNat_ofNat_of_lt' (show _ < 2 ^ 32 by omega)

theorem generation_lt (hc : 0 < c) (hcap : c ≤ maxCapacity) (Q j : Nat) :
    (UInt32.ofNat (cellIndex c Q j / c)).toNat < 2 ^ 30 := by
  rw [generation_toNat hc hcap]
  exact Nat.lt_of_lt_of_le (div_lt_gens hc (cellIndex_lt hc hcap Q j)) (gens_le c)

/-- Writing the slot of the `i`-th cell leaves the slots of the other cells alone. -/
theorem getElem?_set_slot {β : Type} {l : List β} (hl : l.length = c) {Q i j : Nat} (hi : i < c) (hj : j < c)
    (x : β) : (l.set ((Q + i) % c) x)[(Q + j) % c]? = if i = j then some x else l[(Q + j) % c]? := by
  rw [List.getElem?_set]
  by_cases hij : i = j
  · subst hij
    have hlt : (Q + i) % c < l.length := by
      rw [hl]
      exact Nat.mod_lt _ (by omega)
    simp only [if_true, hlt]
  · have hne : (Q + i) % c ≠ (Q + j) % c := fun h => hij (slot_inj hi hj h)
    simp only [hne, hij, if_false]

theorem getElem?_append_singleton_of_ne {β : Type} {l : List β} {j : Nat} (x : β) (h : l.length ≠ j) :
    (l ++ [x])[j]? = l[j]? := by
  rcases Nat.lt_or_gt_of_ne h with hlt | hgt
  · have hle : (l ++ [x]).length ≤ j := by
      rw [List.length_append, List.length_singleton]
      omega
    rw [List.getElem?_eq_none hle, List.getElem?_eq_none (Nat.le_of_lt hlt)]
  · exact List.getElem?_append_left hgt

/-- After a pop the `j`-th cell from the new pop index is the old `j + 1`-th, and the last is the
slot just popped, written with `x`. -/
theorem getElem?_set_popped {β : Type} {l : List β} (hl : l.length = c) {Q j : Nat} (hj : j < c) (x : β) :
    (l.set ((Q + 0) % c) x)[((Q + 1) % span c + j) % c]? = if j + 1 < c then l[(Q + (j + 1)) % c]? else some x := by
  have hc : 0 < c := Nat.lt_of_le_of_lt (Nat.zero_le j) hj
  rw [slot_succ]
  split_ifs with hj1
  · rw [getElem?_set_slot hl hc hj1, if_neg (Nat.succ_ne_zero j).symm]
  · have hjc : j + 1 = c := by omega
    rw [hjc, Nat.add_mod_right, ← Nat.add_zero Q, getElem?_set_slot hl hc hc, if_pos rfl]

end Layout

variable {α : Type}

/-- How a queue of capacity `c` lays out the FIFO `f`. From the pop index `Q`, the `j`-th cell
holds the `j`-th element and says `full` in its generation, and the cells after the last element
say `empty` in theirs; the push index is the cell after the last element, flagged when pushes
are disabled. -/
structure Refines (c : Nat) (q : Queue α) (f : Fifo α) : Prop where
  shape : q.manager.Shape c
  data_length : q.data.length = c
  pop_lt : q.manager.popIndex.toNat < span c
  count_le : f.items.length ≤ c
  push : q.manager.pushIndex.toNat =
    cellIndex c q.manager.popIndex.toNat f.items.length + if f.enabled then 0 else 2 ^ 31
  state : ∀ j < c, q.manager.states[(q.manager.popIndex.toNat + j) % c]? =
    some (encodeElement (UInt32.ofNat (cellIndex c q.manager.popIndex.toNat j / c))
      (if j < f.items.length then .full else .empty))
  data : ∀ j < c, q.data[(q.manager.popIndex.toNat + j) % c]? = some f.items[j]?

variable {c : Nat}

theorem refines_create (hc : 0 < c) (hcap : c ≤ maxCapacity) : Refines c (Queue.create c : Queue α) Fifo.empty where
  shape := QueueManager.create_shape hc hcap
  data_length := List.length_replicate
  pop_lt := by
    have := two_mul_le_span hc hcap
    show 0 < span c
    omega
  count_le := Nat.zero_le c
  push := by
    show 0 = (0 + 0) % span c + 0
    rw [Nat.zero_mod]
  state := by
    intro j hj
    have hcell : cellIndex c 0 j = j := by
      rw [cellIndex, Nat.zero_add, Nat.mod_eq_of_lt (lt_span_of_lt hc hcap hj)]
    show (List.replicate c 0)[(0 + j) % c]? =
      some (encodeElement (UInt32.ofNat (cellIndex c 0 j / c)) (if j < ([] : List α).length then .full else .empty))
    rw [hcell, Nat.zero_add, Nat.mod_eq_of_lt hj, Nat.div_eq_of_lt hj, List.getElem?_replicate_of_lt hj]
    simp only [List.length_nil, Nat.not_lt_zero, if_false]
    rfl
  data := by
    intro j hj
    show (List.replicate c none)[(0 + j) % c]? = _
    rw [Nat.zero_add, Nat.mod_eq_of_lt hj, List.getElem?_replicate_of_lt hj]
    rfl

namespace Refines

variable {q : Queue α} {f : Fifo α} (h : Refines c q f)
include h

theorem stateAt_eq {i : UInt32} {j : Nat} (hj : j < c) (hi : i.toNat = (q.manager.popIndex.toNat + j) % c) :
    q.manager.stateAt i = encodeElement (UInt32.ofNat (cellIndex c q.manager.popIndex.toNat j / c))
      (if j < f.items.length then .full else .empty) := by
  rw [QueueManager.stateAt, hi, List.getD_eq_getElem?_getD, h.state j hj]
  rfl

theorem pushIndex_of_enabled (he : f.enabled = true) :
    isDisabledFlagSet q.manager.pushIndex = false ∧ discardDisabledFlag q.manager.pushIndex = q.manager.pushIndex ∧
      q.manager.pushIndex.toNat = cellIndex c q.manager.popIndex.toNat f.items.length := by
  have hpush := h.push
  rw [he, if_pos rfl, Nat.add_zero] at hpush
  have hlt := cellIndex_lt h.shape.pos h.shape.le_max q.manager.popIndex.toNat f.items.length
  have hspan := span_le c
  refine ⟨?_, ?_, hpush⟩
  · rw [Bool.eq_false_iff, ne_eq, isDisabledFlagSet_iff]
    omega
  · apply UInt32.toNat_inj.mp
    rw [discardDisabledFlag_toNat]
    omega

theorem pushIndex_of_disabled (he : f.enabled = false) : isDisabledFlagSet q.manager.pushIndex = true := by
  have hpush := h.push
  rw [he] at hpush
  rw [isDisabledFlagSet_iff, hpush]
  exact Nat.le_add_left _ _

theorem tryPushBack_success (he : f.enabled = true) (hn : f.items.length < c) (fuel : Nat) (v : α) :
    ∃ q', q.tryPushBack (fuel + 1) v = some (.success, q') ∧ Refines c q' { f with items := f.items ++ [v] } := by
  obtain ⟨hflag, hdiscard, hpush⟩ := h.pushIndex_of_enabled he
  have hs := h.shape
  have hslot : (q.manager.slotOf q.manager.pushIndex).toNat = (q.manager.popIndex.toNat + f.items.length) % c := by
    rw [hs.slotOf_toNat, hpush, cellIndex, mod_span_mod]
  have hgen : q.manager.generationOf q.manager.pushIndex =
      UInt32.ofNat (cellIndex c q.manager.popIndex.toNat f.items.length / c) := by
    rw [hs.generationOf_eq, hpush]
  have hcell : q.manager.stateAt (q.manager.slotOf q.manager.pushIndex) =
      encodeElement (q.manager.generationOf q.manager.pushIndex) .empty := by
    rw [h.stateAt_eq hn hslot, hgen, if_neg (Nat.lt_irrefl _)]
  refine ⟨⟨q.data.set (q.manager.slotOf q.manager.pushIndex).toNat (some v),
    ({ q.manager.setState (q.manager.slotOf q.manager.pushIndex)
        (encodeElement (q.manager.generationOf q.manager.pushIndex) .writing) with
        pushIndex := q.manager.nextCombinedIndex q.manager.pushIndex }).commitPushIndex
      (q.manager.generationOf q.manager.pushIndex) (q.manager.slotOf q.manager.pushIndex)⟩, ?_, ?_⟩
  · simp only [Queue.tryPushBack, QueueManager.reservePushIndex, QueueManager.reservePushLoop, hflag, hdiscard, hcell,
      Bool.false_eq_true, if_false, if_true, QueueManager.setState_pushIndex, ne_eq, not_true_eq_false]
    rfl
  · have hnext : (q.manager.nextCombinedIndex q.manager.pushIndex).toNat =
        cellIndex c q.manager.popIndex.toNat (f.items.length + 1) := by
      rw [hs.nextCombinedIndex_toNat (hpush ▸ cellIndex_lt hs.pos hs.le_max _ _), hpush, cellIndex, cellIndex,
        Nat.mod_add_mod, Nat.add_assoc]
    refine ⟨((hs.setState _ _).withPushIndex _).setState _ _, ?_, h.pop_lt, ?_, ?_, ?_, ?_⟩
    · rw [List.length_set]
      exact h.data_length
    · show (f.items ++ [v]).length ≤ c
      rw [List.length_append, List.length_singleton]
      exact hn
    · show (q.manager.nextCombinedIndex q.manager.pushIndex).toNat =
        cellIndex c q.manager.popIndex.toNat (f.items ++ [v]).length + if f.enabled then 0 else 2 ^ 31
      rw [hnext, he, List.length_append, List.length_singleton]
      rfl
    · intro j hj
      show ((q.manager.states.set _ _).set _ _)[(q.manager.popIndex.toNat + j) % c]? =
        some (encodeElement (UInt32.ofNat (cellIndex c q.manager.popIndex.toNat j / c))
          (if j < (f.items ++ [v]).length then .full else .empty))
      rw [List.set_set, hslot, getElem?_set_slot hs.states_length hn hj, List.length_append, List.length_singleton]
      by_cases hnj : f.items.length = j
      · subst hnj
        rw [if_pos rfl, hgen, if_pos (Nat.lt_succ_self _)]
      · have hlt : (j < f.items.length + 1) = (j < f.items.length) := propext (by omega)
        rw [if_neg hnj, h.state j hj]
        simp only [hlt]
    · intro j hj
      show (q.data.set _ _)[(q.manager.popIndex.toNat + j) % c]? = some (f.items ++ [v])[j]?
      rw [hslot, getElem?_set_slot h.data_length hn hj]
      by_cases hnj : f.items.length = j
      · subst hnj
        rw [if_pos rfl, List.getElem?_concat_length]
      · rw [if_neg hnj, h.data j hj, getElem?_append_singleton_of_ne v hnj]

theorem reservePopIndex_success {x : α} {xs : List α} (hitems : f.items = x :: xs) (fuel : Nat) :
    ∃ g i m, q.manager.reservePopIndex (fuel + 1) = some (.success, g, i, m) ∧ q.data.getD i.toNat none = some x ∧
      Refines c ⟨q.data.set i.toNat none, m.commitPopIndex g i⟩ { f with items := xs } := by
  have hs := h.shape
  have hQ := h.pop_lt
  have hpos : 0 < f.items.length := by rw [hitems]; exact Nat.succ_pos _
  have hslot : (q.manager.slotOf q.manager.popIndex).toNat = (q.manager.popIndex.toNat + 0) % c := by
    rw [hs.slotOf_toNat, Nat.add_zero]
  have hgen : q.manager.generationOf q.manager.popIndex = UInt32.ofNat (cellIndex c q.manager.popIndex.toNat 0 / c) := by
    rw [hs.generationOf_eq, cellIndex_zero hQ]
  have hcell : q.manager.stateAt (q.manager.slotOf q.manager.popIndex) =
      encodeElement (q.manager.generationOf q.manager.popIndex) .full := by
    rw [h.stateAt_eq hs.pos hslot, hgen, if_pos hpos]
  have hnext : (q.manager.nextCombinedIndex q.manager.popIndex).toNat = (q.manager.popIndex.toNat + 1) % span c :=
    hs.nextCombinedIndex_toNat hQ
  have hlen : xs.length + 1 = f.items.length := by rw [hitems, List.length_cons]
  refine ⟨q.manager.generationOf q.manager.popIndex, q.manager.slotOf q.manager.popIndex, { q.manager.setState (q.manager.slotOf q.manager.popIndex)
      (encodeElement (q.manager.generationOf q.manager.popIndex) .reading) with
      popIndex := q.manager.nextCombinedIndex q.manager.popIndex }, ?_, ?_, ?_⟩
  · simp only [QueueManager.reservePopIndex, QueueManager.reservePopLoop, hcell, if_true,
      QueueManager.setState_popIndex]
    rfl
  · rw [hslot, List.getD_eq_getElem?_getD, h.data 0 hs.pos, hitems]
    rfl
  · have hcount := h.count_le
    refine ⟨((hs.setState _ _).withPopIndex _).setState _ _, ?_, ?_, ?_, ?_, ?_, ?_⟩
    · rw [List.length_set]
      exact h.data_length
    · show (q.manager.nextCombinedIndex q.manager.popIndex).toNat < span c
      rw [hnext]
      exact Nat.mod_lt _ (Nat.lt_of_le_of_lt (Nat.zero_le _) hQ)
    · show xs.length ≤ c
      omega
    · show q.manager.pushIndex.toNat =
        cellIndex c (q.manager.nextCombinedIndex q.manager.popIndex).toNat xs.length + if f.enabled then 0 else 2 ^ 31
      rw [h.push, hnext, cellIndex_succ, hlen]
    · intro j hj
      show ((q.manager.states.set _ _).set _ _)[((q.manager.nextCombinedIndex q.manager.popIndex).toNat + j) % c]? =
        some (encodeElement (UInt32.ofNat (cellIndex c (q.manager.nextCombinedIndex q.manager.popIndex).toNat j / c))
          (if j < xs.length then .full else .empty))
      rw [List.set_set, hslot, hnext, getElem?_set_popped hs.states_length hj, cellIndex_succ]
      split_ifs with hj1 hjx hjx
      · rw [h.state (j + 1) hj1, if_pos (by omega)]
      · rw [h.state (j + 1) hj1, if_neg (by omega)]
      · omega
      · have hgenlt : (q.manager.generationOf q.manager.popIndex).toNat < gens c := by
          rw [hgen, generation_toNat hs.pos hs.le_max]
          exact div_lt_gens hs.pos (cellIndex_lt hs.pos hs.le_max _ _)
        have hjc : j + 1 = c := by omega
        congr 2
        apply UInt32.toNat_inj.mp
        show (q.manager.nextGeneration (q.manager.generationOf q.manager.popIndex)).toNat = _
        rw [hs.nextGeneration_toNat hgenlt, hgen, generation_toNat hs.pos hs.le_max,
          generation_toNat hs.pos hs.le_max, cellIndex_zero hQ, hjc, cellIndex_capacity_div hs.pos]
    · intro j hj
      show (q.data.set _ _)[((q.manager.nextCombinedIndex q.manager.popIndex).toNat + j) % c]? = some xs[j]?
      rw [hslot, hnext, getElem?_set_popped h.data_length hj]
      split_ifs with hj1
      · rw [h.data (j + 1) hj1, hitems, List.getElem?_cons_succ]
      · rw [List.getElem?_eq_none (by omega)]

theorem reservePushIndex_disabled (he : f.enabled = false) (fuel : Nat) :
    q.manager.reservePushIndex (fuel + 1) = some (.queueDisabled, 0, 0, q.manager) := by
  simp only [QueueManager.reservePushIndex, QueueManager.reservePushLoop, h.pushIndex_of_disabled he, if_true]

/-- A full queue: the cell at the push index is the front element's, a generation behind. -/
theorem reservePushLoop_full (he : f.enabled = true) (hn : c ≤ f.items.length) (fuel : Nat) (saved : UInt32) :
    q.manager.reservePushLoop (fuel + 1) q.manager.pushIndex saved =
      if saved ≠ q.manager.pushIndex then q.manager.reservePushLoop fuel q.manager.pushIndex q.manager.pushIndex
      else some (.queueFull, 0, 0, q.manager) := by
  obtain ⟨hflag, hdiscard, hpush⟩ := h.pushIndex_of_enabled he
  have hs := h.shape
  have hQ := h.pop_lt
  have hnc : f.items.length = c := Nat.le_antisymm h.count_le hn
  have hslot : (q.manager.slotOf q.manager.pushIndex).toNat = (q.manager.popIndex.toNat + 0) % c := by
    rw [hs.slotOf_toNat, hpush, cellIndex, mod_span_mod, hnc, Nat.add_mod_right, Nat.add_zero]
  have hfront := generation_lt hs.pos hs.le_max q.manager.popIndex.toNat 0
  have hcell : q.manager.stateAt (q.manager.slotOf q.manager.pushIndex) =
      encodeElement (UInt32.ofNat (cellIndex c q.manager.popIndex.toNat 0 / c)) .full := by
    rw [h.stateAt_eq hs.pos hslot, if_pos (by rw [hnc]; exact hs.pos)]
  have hgen : q.manager.generationOf q.manager.pushIndex =
      UInt32.ofNat (cellIndex c q.manager.popIndex.toNat c / c) := by
    rw [hs.generationOf_eq, hpush, hnc]
  have hne : encodeElement (UInt32.ofNat (cellIndex c q.manager.popIndex.toNat 0 / c)) .full ≠
      encodeElement (q.manager.generationOf q.manager.pushIndex) .empty := by
    rw [Ne, encodeElement_inj hfront (hgen ▸ generation_lt hs.pos hs.le_max _ _)]
    rintro ⟨-, hfe⟩
    cases hfe
  have hdiff : signed (UInt32.ofNat (cellIndex c q.manager.popIndex.toNat c / c) -
      UInt32.ofNat (cellIndex c q.manager.popIndex.toNat 0 / c)) = 1 ∨
      signed (UInt32.ofNat (cellIndex c q.manager.popIndex.toNat c / c) -
        UInt32.ofNat (cellIndex c q.manager.popIndex.toNat 0 / c)) = -signed q.manager.maxGeneration := by
    rw [cellIndex_capacity_div hs.pos, cellIndex_zero hQ]
    exact hs.signed_next_sub (div_lt_gens hs.pos hQ)
  rw [← hgen] at hdiff
  have hread : decodeStateFromElementState (encodeElement (UInt32.ofNat (cellIndex c q.manager.popIndex.toNat 0 / c))
      .full) ≠ .reading := by
    rw [decodeState_encodeElement hfront]
    decide
  simp only [QueueManager.reservePushLoop, hflag, hdiscard, hcell, Bool.false_eq_true, if_false, if_neg hne,
    decodeGeneration_encodeElement hfront, if_pos hdiff, if_neg hread]

/-- An empty queue: the cell at the pop index is empty in the current generation. -/
theorem reservePopLoop_empty (hn : f.items = []) (fuel : Nat) (saved : UInt32) :
    q.manager.reservePopLoop (fuel + 1) q.manager.popIndex saved =
      if saved ≠ q.manager.popIndex then q.manager.reservePopLoop fuel q.manager.popIndex q.manager.popIndex
      else some (.queueEmpty, 0, 0, q.manager) := by
  have hs := h.shape
  have hQ := h.pop_lt
  have hslot : (q.manager.slotOf q.manager.popIndex).toNat = (q.manager.popIndex.toNat + 0) % c := by
    rw [hs.slotOf_toNat, Nat.add_zero]
  have hgen : q.manager.generationOf q.manager.popIndex = UInt32.ofNat (cellIndex c q.manager.popIndex.toNat 0 / c) := by
    rw [hs.generationOf_eq, cellIndex_zero hQ]
  have hfront := generation_lt hs.pos hs.le_max q.manager.popIndex.toNat 0
  have hcell : q.manager.stateAt (q.manager.slotOf q.manager.popIndex) =
      encodeElement (q.manager.generationOf q.manager.popIndex) .empty := by
    rw [h.stateAt_eq hs.pos hslot, hgen, hn, List.length_nil, if_neg (Nat.lt_irrefl 0)]
  have hne : encodeElement (q.manager.generationOf q.manager.popIndex) .empty ≠
      encodeElement (q.manager.generationOf q.manager.popIndex) .full := by
    rw [Ne, encodeElement_inj (hgen ▸ hfront) (hgen ▸ hfront)]
    rintro ⟨-, hef⟩
    cases hef
  have hsame : signed (q.manager.generationOf q.manager.popIndex -
      decodeGenerationFromElementState (encodeElement (q.manager.generationOf q.manager.popIndex) .empty)) = 0 := by
    rw [decodeGeneration_encodeElement (hgen ▸ hfront), sub_self]
    rfl
  have hnotFull : ¬((0 : Int) = 1 ∨ (0 : Int) = -signed q.manager.maxGeneration) := by
    have h2 := two_le_gens hs.pos hs.le_max
    rw [hs.signed_maxGeneration]
    omega
  simp only [QueueManager.reservePopLoop, hcell, if_neg hne, hsame, if_neg hnotFull,
    decodeState_encodeElement (hgen ▸ hfront), and_self, if_true]

/-- `size()` reads the signed distance between the indexes; past a wrap of the push index the
distance is negative, more than half the combined indexes back, and the code adds them on. -/
theorem size_eq : q.size = f.items.length := by
  have hs := h.shape
  have hQ := h.pop_lt
  have hcount := h.count_le
  have hspan := span_le c
  have h2c := two_mul_le_span hs.pos hs.le_max
  have hP : (discardDisabledFlag q.manager.pushIndex).toNat = cellIndex c q.manager.popIndex.toNat f.items.length := by
    have hlt := cellIndex_lt hs.pos hs.le_max q.manager.popIndex.toNat f.items.length
    rw [discardDisabledFlag_toNat, h.push]
    split_ifs <;> omega
  have hdiff : signed (discardDisabledFlag q.manager.pushIndex - q.manager.popIndex) =
      (cellIndex c q.manager.popIndex.toNat f.items.length : Int) - q.manager.popIndex.toNat := by
    rw [signed_sub (by rw [hP]; exact Nat.lt_of_lt_of_le (cellIndex_lt hs.pos hs.le_max _ _) hspan) (by omega), hP]
  simp only [Queue.size, QueueManager.size, hdiff, hs.capacity]
  by_cases hwrap : q.manager.popIndex.toNat + f.items.length < span c
  · have hcell : cellIndex c q.manager.popIndex.toNat f.items.length = q.manager.popIndex.toNat + f.items.length :=
      Nat.mod_eq_of_lt hwrap
    rw [hcell, if_pos (by omega), if_neg (by omega)]
    omega
  · have hcell : cellIndex c q.manager.popIndex.toNat f.items.length + span c =
        q.manager.popIndex.toNat + f.items.length := by
      rw [cellIndex, Nat.mod_eq_sub_mod (by omega), Nat.mod_eq_of_lt (by omega)]
      omega
    have htwo : (2 : UInt32).toNat = 2 := rfl
    have hhalf : signed (q.manager.maxCombinedIndex / 2) = ((span c - 1) / 2 : Nat) := by
      rw [signed_of_lt (by rw [UInt32.toNat_div, hs.maxCombinedIndex_toNat, htwo]; omega), UInt32.toNat_div,
        hs.maxCombinedIndex_toNat, htwo]
    have hback : (discardDisabledFlag q.manager.pushIndex - q.manager.popIndex + (q.manager.maxCombinedIndex + 1)).toNat =
        f.items.length := by
      rw [UInt32.toNat_add, UInt32.toNat_sub, UInt32.toNat_add, hs.maxCombinedIndex_toNat, hP]
      show ((2 ^ 32 - q.manager.popIndex.toNat + _) % 2 ^ 32 + (span c - 1 + 1) % 2 ^ 32) % 2 ^ 32 = _
      omega
    have hlt : (discardDisabledFlag q.manager.pushIndex - q.manager.popIndex + (q.manager.maxCombinedIndex + 1)).toNat <
        2 ^ 31 := by
      rw [hback]
      omega
    rw [if_neg (by omega), hhalf, if_pos (by omega), signed_of_lt hlt, hback, sizeTOfInt32,
      if_pos (Int.natCast_nonneg _), Int.toNat_natCast]
    exact Nat.min_eq_left hcount

omit h in
/-- `removeAll` pops as many times as `size()` said, each pop succeeding. -/
theorem removeAllLoop_spec (fuel : Nat) : ∀ (k : Nat) {q : Queue α} {f : Fifo α}, Refines c q f →
    f.items.length = k → ∃ q', Queue.removeAllLoop (fuel + 1) k q = some q' ∧ Refines c q' { f with items := [] }
  | 0, q, ⟨items, enabled⟩, h, hk => by
    obtain rfl : items = [] := List.length_eq_zero_iff.mp hk
    exact ⟨q, rfl, h⟩
  | k + 1, q, f, h, hk => by
    obtain ⟨x, xs, hitems⟩ := List.exists_cons_of_length_eq_add_one hk
    obtain ⟨g, i, m, hres, -, hpop⟩ := h.reservePopIndex_success hitems fuel
    have hxs : ({ f with items := xs } : Fifo α).items.length = k := by
      rw [hitems, List.length_cons] at hk
      exact Nat.succ.inj hk
    obtain ⟨q', hloop, hq'⟩ := removeAllLoop_spec fuel k hpop hxs
    refine ⟨q', ?_, hq'⟩
    rw [Queue.removeAllLoop, hres]
    simp only [ne_eq, not_true_eq_false, if_false]
    exact hloop

theorem removeAll (fuel : Nat) : ∃ q', q.removeAll (fuel + 1) = some q' ∧ Refines c q' { f with items := [] } := by
  have hsize : q.manager.size = f.items.length := h.size_eq
  rw [Queue.removeAll, hsize]
  exact removeAllLoop_spec fuel _ h rfl

/-- Only the push index's flag differs between an enabled and a disabled queue. -/
theorem withPushIndex (b : Bool) {k : UInt32}
    (hk : k.toNat = cellIndex c q.manager.popIndex.toNat f.items.length + if b then 0 else 2 ^ 31) :
    Refines c { q with manager := { q.manager with pushIndex := k } } { f with enabled := b } :=
  ⟨h.shape.withPushIndex k, h.data_length, h.pop_lt, h.count_le, hk, h.state, h.data⟩

theorem disable : Refines c q.disable { f with enabled := false } := by
  cases he : f.enabled
  · have hq : q.disable = { q with manager := q.manager } := by
      rw [Queue.disable, QueueManager.disable, if_pos (h.pushIndex_of_disabled he)]
    have hf : { f with enabled := false } = f := by
      rw [← he]
    rw [hq, hf]
    exact h
  · obtain ⟨hflag, -, hpush⟩ := h.pushIndex_of_enabled he
    have hlt : q.manager.pushIndex.toNat < 2 ^ 31 := by
      rw [hpush]
      exact Nat.lt_of_lt_of_le (cellIndex_lt h.shape.pos h.shape.le_max _ _) (span_le c)
    have hq : q.disable = { q with manager := { q.manager with pushIndex := q.manager.pushIndex ||| disabledStateMask } } := by
      rw [Queue.disable, QueueManager.disable, hflag]
      rfl
    rw [hq]
    apply h.withPushIndex false
    rw [show disabledStateMask = (1 : UInt32) <<< 31 from rfl, toNat_or_top hlt, hpush]
    rfl

theorem enable : Refines c q.enable { f with enabled := true } := by
  cases he : f.enabled
  · have hflag := h.pushIndex_of_disabled he
    have hq : q.enable = { q with manager := { q.manager with pushIndex := q.manager.pushIndex &&& ~~~disabledStateMask } } := by
      rw [Queue.enable, QueueManager.enable, hflag]
      rfl
    have hpush := h.push
    simp only [he, Bool.false_eq_true, if_false] at hpush
    have hlt := Nat.lt_of_lt_of_le (cellIndex_lt h.shape.pos h.shape.le_max q.manager.popIndex.toNat f.items.length)
      (span_le c)
    rw [hq]
    apply h.withPushIndex true
    rw [show disabledStateMask = (1 : UInt32) <<< 31 from rfl, toNat_and_not_top, hpush]
    show _ = _ + 0
    omega
  · have hq : q.enable = { q with manager := q.manager } := by
      rw [Queue.enable, QueueManager.enable, (h.pushIndex_of_enabled he).1]
      rfl
    have hf : { f with enabled := true } = f := by
      rw [← he]
    rw [hq, hf]
    exact h

theorem pushIndex_ne_all_ones (he : f.enabled = true) : (0xFFFFFFFF : UInt32) ≠ q.manager.pushIndex := by
  have hcell := cellIndex_lt h.shape.pos h.shape.le_max q.manager.popIndex.toNat f.items.length
  have hspan := span_le c
  have hlt : q.manager.pushIndex.toNat < 2 ^ 32 - 1 := by
    rw [(h.pushIndex_of_enabled he).2.2]
    omega
  intro heq
  rw [← heq] at hlt
  exact absurd hlt (by decide)

theorem popIndex_ne_all_ones : (0xFFFFFFFF : UInt32) ≠ q.manager.popIndex := by
  have hlt : q.manager.popIndex.toNat < 2 ^ 32 - 1 := by
    have hspan := span_le c
    have hQ := h.pop_lt
    omega
  intro heq
  rw [← heq] at hlt
  exact absurd hlt (by decide)

/-- A push to a full queue fails on the second look at the cell. -/
theorem reservePushIndex_full (he : f.enabled = true) (hn : c ≤ f.items.length) (fuel : Nat) :
    q.manager.reservePushIndex (fuel + 2) = some (.queueFull, 0, 0, q.manager) := by
  rw [QueueManager.reservePushIndex, h.reservePushLoop_full he hn, if_pos (h.pushIndex_ne_all_ones he),
    h.reservePushLoop_full he hn, if_neg (not_not.mpr rfl)]

/-- A pop from an empty queue fails on the second look at the cell. -/
theorem reservePopIndex_empty (hn : f.items = []) (fuel : Nat) :
    q.manager.reservePopIndex (fuel + 2) = some (.queueEmpty, 0, 0, q.manager) := by
  rw [QueueManager.reservePopIndex, h.reservePopLoop_empty hn, if_pos h.popIndex_ne_all_ones,
    h.reservePopLoop_empty hn, if_neg (not_not.mpr rfl)]

/-- One call, with fuel for the two looks a failing push or pop takes, answers as the FIFO does
and keeps the layout. -/
theorem step (fuel : Nat) (op : Op α) :
    ∃ q', q.step (fuel + 2) op = some ((f.step c op).1, q') ∧ Refines c q' (f.step c op).2 := by
  cases op with
  | tryPushBack v =>
    cases he : f.enabled
    · refine ⟨q, ?_, ?_⟩
      · simp only [Queue.step, Queue.tryPushBack, h.reservePushIndex_disabled he, Fifo.step, he]
        rfl
      · simp only [Fifo.step, he]
        exact h
    · by_cases hn : c ≤ f.items.length
      · refine ⟨q, ?_, ?_⟩
        · simp only [Queue.step, Queue.tryPushBack, h.reservePushIndex_full he hn, Fifo.step, he, hn]
          rfl
        · simp only [Fifo.step, he, hn]
          exact h
      · obtain ⟨q', hpush, hq'⟩ := h.tryPushBack_success he (Nat.lt_of_not_le hn) (fuel + 1) v
        refine ⟨q', ?_, ?_⟩
        · simp only [Queue.step, hpush, Fifo.step, he, hn]
          rfl
        · simp only [Fifo.step, he, hn, Bool.not_true, Bool.false_eq_true, if_false]
          rw [he] at hq'
          exact hq'
  | tryPopFront =>
    cases hitems : f.items with
    | nil =>
      have hf : { f with items := f.items.tail } = f := by
        obtain ⟨items, enabled⟩ := f
        simp only at hitems
        subst hitems
        rfl
      refine ⟨q, ?_, ?_⟩
      · simp only [Queue.step, Queue.tryPopFront, h.reservePopIndex_empty hitems, Fifo.step, hitems]
        rfl
      · simp only [Fifo.step]
        rw [hf]
        exact h
    | cons x xs =>
      obtain ⟨g, i, m, hres, hx, hpop⟩ := h.reservePopIndex_success hitems (fuel + 1)
      refine ⟨⟨q.data.set i.toNat none, m.commitPopIndex g i⟩, ?_, ?_⟩
      · simp only [Queue.step, Queue.tryPopFront, hres, Fifo.step, hitems, hx]
        rfl
      · simp only [Fifo.step, hitems, List.tail_cons]
        exact hpop
  | removeAll =>
    obtain ⟨q', hrem, hq'⟩ := h.removeAll (fuel + 1)
    exact ⟨q', by simp only [Queue.step, hrem, Fifo.step]; rfl, hq'⟩
  | disable => exact ⟨_, rfl, h.disable⟩
  | enable => exact ⟨_, rfl, h.enable⟩

end Refines

/-- Every run of calls answers as the FIFO does and keeps the layout. -/
theorem Refines.run {q : Queue α} {f : Fifo α} (h : Refines c q f) (fuel : Nat) (ops : List (Op α)) :
    ∃ q', q.run (fuel + 2) ops = some ((f.run c ops).1, q') ∧ Refines c q' (f.run c ops).2 := by
  induction ops generalizing q f with
  | nil => exact ⟨q, rfl, h⟩
  | cons op ops ih =>
    obtain ⟨q₁, hstep, h₁⟩ := h.step fuel op
    obtain ⟨q₂, hrun, h₂⟩ := ih h₁
    refine ⟨q₂, ?_, h₂⟩
    rw [Queue.run, hstep]
    simp only [hrun, Option.map_some, Fifo.run]

section Runs

variable {α : Type} {c fuel : Nat}

theorem queue_run_refines_fifo (hc : 0 < c) (hcap : c ≤ maxCapacity) (hfuel : 2 ≤ fuel) (ops : List (Op α)) :
    ∃ q, (Queue.create c : Queue α).run fuel ops = some ((Fifo.empty.run c ops).1, q) ∧
      q.size = (Fifo.empty.run c ops).2.items.length := by
  obtain ⟨k, rfl⟩ : ∃ k, fuel = k + 2 := ⟨fuel - 2, by omega⟩
  obtain ⟨q, hrun, hq⟩ := (refines_create hc hcap).run k ops
  exact ⟨q, hrun, hq.size_eq⟩

/-- Three pushes into two slots, a pop, and a push into the slot the pop freed. -/
def pushPastFull : List (Op Nat) := [.tryPushBack 1, .tryPushBack 2, .tryPushBack 3, .tryPopFront, .tryPushBack 3]

theorem queue_run_refines_fifo_two_slots : 0 < 2 ∧ 2 ≤ maxCapacity ∧ 2 ≤ 2 ∧
    ∃ q, (Queue.create 2 : Queue Nat).run 2 pushPastFull = some ((Fifo.empty.run 2 pushPastFull).1, q) ∧
      q.size = (Fifo.empty.run 2 pushPastFull).2.items.length :=
  ⟨by decide, by decide, Nat.le_refl 2, queue_run_refines_fifo (by decide) (by decide) (Nat.le_refl 2) pushPastFull⟩

end Runs

end Lokinet.Thread
